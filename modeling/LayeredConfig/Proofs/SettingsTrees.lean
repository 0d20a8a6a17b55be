import LayeredConfig.Proofs.SettingsAgreement

/-!
# The trees of settings

Settings written as a tree have a value for every field, which the field takes as it is, or a null
where the default is one too. They are determined by these values.
-/

namespace LayeredConfig

/-- What settings can hold for a field. -/
def Field.Holds (field : Field) (value : Tree) : Prop :=
  (field.Takes value ∧ field.kind.typed value = value)
    ∨ (value = .null ∧ field.required = false
      ∧ Settings.defaults.at? field.keys = some .null)

namespace Field.Holds

variable {field : Field}

theorem string (hkind : field.kind = .string) (hmax : field.max = none) (text : String) :
    field.Holds (.string text) := by
  left
  simp [Takes, hkind, hmax, Kind.accepts, Kind.typed]

theorem nullable (hkind : field.kind = .string) (hmax : field.max = none)
    (hrequired : field.required = false)
    (hdefault : Settings.defaults.at? field.keys = some .null) (text? : Option String) :
    field.Holds (Encode.nullable text?) := by
  cases text? with
  | some text => exact string hkind hmax text
  | none => exact Or.inr ⟨rfl, hrequired, hdefault⟩

theorem bool (hkind : field.kind = .bool) (hmax : field.max = none) (flag : Bool) :
    field.Holds (.bool flag) := by
  left
  simp [Takes, hkind, hmax, Kind.accepts, Kind.typed]

theorem word64 (hkind : field.kind = .integer) (hmax : field.max = none) (n : UInt64) :
    field.Holds (Encode.word64 n) := by
  have hlt := n.toNat_lt
  left
  simp [Takes, hkind, hmax, Encode.word64, Kind.accepts, Kind.typed]
  omega

theorem word16 (hkind : field.kind = .integer) (hmax : field.max = some 65535) (n : UInt16) :
    field.Holds (Encode.word16 n) := by
  have hlt := n.toNat_lt
  left
  simp [Takes, hkind, hmax, Encode.word16, Kind.accepts, Kind.typed]
  omega

theorem float (hkind : field.kind = .float) (hmax : field.max = none) (x : Float) :
    field.Holds (.float x) := by
  left
  simp [Takes, hkind, hmax, Kind.accepts, Kind.typed]

theorem null (h : field.Holds .null) :
    field.required = false ∧ Settings.defaults.at? field.keys = some .null := by
  rcases h with ⟨⟨haccepts, -⟩, -⟩ | ⟨-, hrequired, hdefault⟩
  · cases hkind : field.kind <;> simp [hkind, Kind.accepts] at haccepts
  · exact ⟨hrequired, hdefault⟩

end Field.Holds

namespace Settings

theorem holds_fields (settings : Settings) :
    ∀ field ∈ Schema.indexer.fields, ∃ value, settings.toTree.at? field.keys = some value
      ∧ field.Holds value := by
  simp only [Schema.indexer, List.forall_mem_cons]
  exact ⟨⟨_, rfl, .string rfl rfl _⟩, ⟨_, rfl, .string rfl rfl _⟩,
    ⟨_, rfl, .string rfl rfl _⟩, ⟨_, rfl, .string rfl rfl _⟩,
    ⟨_, rfl, .string rfl rfl _⟩, ⟨_, rfl, .word16 rfl rfl _⟩,
    ⟨_, rfl, .string rfl rfl _⟩, ⟨_, rfl, .nullable rfl rfl rfl rfl _⟩,
    ⟨_, rfl, .nullable rfl rfl rfl rfl _⟩, ⟨_, rfl, .word64 rfl rfl _⟩,
    ⟨_, rfl, .word64 rfl rfl _⟩, ⟨_, rfl, .string rfl rfl _⟩,
    ⟨_, rfl, .nullable rfl rfl rfl rfl _⟩, ⟨_, rfl, .string rfl rfl _⟩,
    ⟨_, rfl, .word64 rfl rfl _⟩, ⟨_, rfl, .word64 rfl rfl _⟩,
    ⟨_, rfl, .string rfl rfl _⟩, ⟨_, rfl, .string rfl rfl _⟩,
    ⟨_, rfl, .string rfl rfl _⟩, ⟨_, rfl, .bool rfl rfl _⟩,
    ⟨_, rfl, .bool rfl rfl _⟩, ⟨_, rfl, .nullable rfl rfl rfl rfl _⟩,
    ⟨_, rfl, .nullable rfl rfl rfl rfl _⟩, ⟨_, rfl, .float rfl rfl _⟩, by simp⟩

/-! ### The fields determine the settings -/

theorem string_inj {text other : String} (h : some (Tree.string text) = some (.string other)) :
    text = other :=
  Tree.string.inj (Option.some.inj h)

theorem bool_inj {flag other : Bool} (h : some (Tree.bool flag) = some (.bool other)) :
    flag = other :=
  Tree.bool.inj (Option.some.inj h)

theorem float_inj {x y : Float} (h : some (Tree.float x) = some (.float y)) : x = y :=
  Tree.float.inj (Option.some.inj h)

theorem nullable_inj {text? other? : Option String}
    (h : some (Encode.nullable text?) = some (Encode.nullable other?)) : text? = other? := by
  cases text? <;> cases other? <;> simp [Encode.nullable] at h ⊢
  exact h

theorem word64_inj {n m : UInt64} (h : some (Encode.word64 n) = some (Encode.word64 m)) : n = m :=
  UInt64.toNat_inj.mp (Int.ofNat.inj (Tree.int.inj (Option.some.inj h)))

theorem word16_inj {n m : UInt16} (h : some (Encode.word16 n) = some (Encode.word16 m)) : n = m :=
  UInt16.toNat_inj.mp (Int.ofNat.inj (Tree.int.inj (Option.some.inj h)))

attribute [ext] IdentitySettings DatabaseSettings GraphNodeSettings MetricsSettings
  NetworkSubgraphSettings EscrowSubgraphSettings SubgraphSettings BlockchainSettings
  ServiceSettings TapSettings Settings

/-- Settings are determined by what their trees have for the fields. -/
theorem eq_of_fields {settings other : Settings}
    (h : ∀ field ∈ Schema.indexer.fields,
      settings.toTree.at? field.keys = other.toTree.at? field.keys) : settings = other := by
  simp only [Schema.indexer, List.forall_mem_cons] at h
  obtain ⟨haddress, hmnemonic, hpostgres, hquery, hstatus, hport, hnetworkUrl, hnetworkToken,
    hnetworkId, hnetworkInterval, hbuffer, hescrowUrl, hescrowToken, hescrowId, hescrowInterval,
    hchain, hverifier, hhost, hprefix, hserveNetwork, hserveEscrow, hserveToken, hfreeToken,
    hlimit, -⟩ := h
  have hindexer : settings.indexer = other.indexer :=
    IdentitySettings.ext (string_inj haddress) (string_inj hmnemonic)
  have hgraphNode : settings.graphNode = other.graphNode :=
    GraphNodeSettings.ext (string_inj hquery) (string_inj hstatus)
  have hnetwork : settings.subgraphs.network = other.subgraphs.network :=
    NetworkSubgraphSettings.ext (string_inj hnetworkUrl) (nullable_inj hnetworkToken)
      (nullable_inj hnetworkId) (word64_inj hnetworkInterval) (word64_inj hbuffer)
  have hescrow : settings.subgraphs.escrow = other.subgraphs.escrow :=
    EscrowSubgraphSettings.ext (string_inj hescrowUrl) (nullable_inj hescrowToken)
      (string_inj hescrowId) (word64_inj hescrowInterval)
  have hblockchain : settings.blockchain = other.blockchain :=
    BlockchainSettings.ext (word64_inj hchain) (string_inj hverifier)
  have hservice : settings.service = other.service :=
    ServiceSettings.ext (string_inj hhost) (string_inj hprefix) (bool_inj hserveNetwork)
      (bool_inj hserveEscrow) (nullable_inj hserveToken) (nullable_inj hfreeToken)
  exact Settings.ext hindexer (DatabaseSettings.ext (string_inj hpostgres)) hgraphNode
    (MetricsSettings.ext (word16_inj hport)) (SubgraphSettings.ext hnetwork hescrow) hblockchain
    hservice (TapSettings.ext (float_inj hlimit))

end Settings

end LayeredConfig
