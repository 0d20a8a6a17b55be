import LayeredConfig.Proofs.NullMembers
import LayeredConfig.Proofs.Reports
import LayeredConfig.Proofs.RoundTrip

/-!
# Settings as data

Settings that are written out come back from what was written, and from the same without its nulls:
a member that is written as a null is one that is null by default. Each group of settings restores
its own table, given that its members restore theirs. Without the nulls, which no field takes, the
schema finds nothing wrong with the tree.
-/

namespace LayeredConfig

open Decode

namespace Decode

/-- Decoding the tree, with its nulls or without them, and encoding the result leaves the fields as
they are. -/
structure Restores (view : Tree → Decoded Tree) (fields : List Field) (whole : Tree) : Prop where
  canonical : whole.Canonical
  restored : ∀ tree, whole.Trims tree → ∃ out, view tree = .ok out
    ∧ ∀ field ∈ fields, out.at? field.keys = whole.at? field.keys

/-! ### Single values -/

theorem Restores.of_leaf {view : Tree → Decoded Tree} {fields : List Field} {whole : Tree}
    (hleaf : whole.isTable = false) (hview : view whole = .ok whole) :
    Restores view fields whole where
  canonical := Tree.canonical_of_leaf hleaf
  restored tree htree := by
    obtain rfl := htree.eq_of_leaf hleaf
    exact ⟨tree, hview, fun field _ => rfl⟩

variable {fields : List Field}

theorem restores_string (text : String) :
    Restores (fun tree => (string tree).map .string) fields (.string text) :=
  .of_leaf rfl rfl

theorem restores_nullable_string (text? : Option String) :
    Restores (fun tree => (nullable string tree).map Encode.nullable) fields
      (Encode.nullable text?) := by
  cases text? <;> exact .of_leaf rfl rfl

theorem restores_bool (flag : Bool) :
    Restores (fun tree => (bool tree).map .bool) fields (.bool flag) :=
  .of_leaf rfl rfl

theorem restores_float (x : Float) :
    Restores (fun tree => (float tree).map .float) fields (.float x) :=
  .of_leaf rfl rfl

theorem natural_eq_ok {bits n : Nat} (h : n < 2 ^ bits) : natural bits (.int n) = .ok n :=
  if_pos ⟨Int.natCast_nonneg n, Int.ofNat_lt.mpr h⟩

theorem restores_word64 (n : UInt64) :
    Restores (fun tree => (word64 tree).map Encode.word64) fields (Encode.word64 n) := by
  refine .of_leaf rfl ?_
  change ((natural 64 (.int n.toNat)).map UInt64.ofNat).map Encode.word64 = _
  rw [natural_eq_ok n.toNat_lt]
  simp [Except.map]

theorem restores_word16 (n : UInt16) :
    Restores (fun tree => (word16 tree).map Encode.word16) fields (Encode.word16 n) := by
  refine .of_leaf rfl ?_
  change ((natural 16 (.int n.toNat)).map UInt16.ofNat).map Encode.word16 = _
  rw [natural_eq_ok n.toNat_lt]
  simp [Except.map]

/-! ### Groups -/

/-- The table has a member for the slot, which the slot restores, and which is null only if the slot
has a null for an absent one. -/
def Slot.RestoredIn (slot : Slot) (entries : List (String × Tree)) : Prop :=
  ∃ child, Keyed.get? entries slot.member.name = some child
    ∧ Restores slot.view slot.fields child ∧ (child = .null → slot.absent = some .null)

theorem Slot.RestoredIn.present {slot : Slot} {entries : List (String × Tree)} {child : Tree}
    (hchild : Keyed.get? entries slot.member.name = some child)
    (hrestores : Restores slot.view slot.fields child) (hne : decide (child = .null) = false) :
    slot.RestoredIn entries :=
  ⟨child, hchild, hrestores, fun hnull => absurd hnull (of_decide_eq_false hne)⟩

theorem Slot.RestoredIn.nullable {slot : Slot} {entries : List (String × Tree)} {child : Tree}
    (hchild : Keyed.get? entries slot.member.name = some child)
    (hrestores : Restores slot.view slot.fields child) (habsent : slot.absent = some .null) :
    slot.RestoredIn entries :=
  ⟨child, hchild, hrestores, fun _ => habsent⟩

/-- A slot whose member is left out has the null back. -/
theorem Slot.RestoredIn.exists_value {slot : Slot} {entries kept : List (String × Tree)}
    (h : slot.RestoredIn entries) (hkept : Tree.TrimsIn entries kept) :
    ∃ value, slot.value ⟨kept, .missingMember⟩ = .ok value
      ∧ ∀ field ∈ slot.fields, value.at? field.keys
        = (Tree.table entries).at? (field.under slot.member.name).keys := by
  obtain ⟨whole, hwhole, hrestores, habsent⟩ := h
  have hat (field : Field) :
      (Tree.table entries).at? (field.under slot.member.name).keys = whole.at? field.keys := by
    simp [Field.under, Tree.at?_table_cons, hwhole]
  cases hchild : Keyed.get? kept slot.member.name with
  | some child =>
    obtain ⟨other, hother, htrims⟩ := hkept.trims _ child hchild
    obtain rfl := Option.some.inj (hwhole.symm.trans hother)
    obtain ⟨out, hout, hfields⟩ := hrestores.restored child htrims
    refine ⟨out, by simp [Slot.value, hchild, hout], fun field hfield => ?_⟩
    rw [hfields field hfield, hat]
  | none =>
    obtain rfl := hkept.null _ whole hwhole hchild
    exact ⟨.null, by simp [Slot.value, hchild, habsent rfl], fun field _ => (hat field).symm⟩

section Group

variable {view : Tree → Decoded Tree} {group : GroupShape} {slots : List Slot}

def Slot.names (slots : List Slot) : List String :=
  Keyed.keys (Keyed.ofList (slots.map fun slot => (slot.member.name, ())))

theorem ascending_of_keys {entries : List (String × Tree)}
    (hkeys : Keyed.keys entries = Slot.names slots) : Keyed.Ascending entries := by
  have hascending := Keyed.ascending_ofList (slots.map fun slot => (slot.member.name, ()))
  rw [Keyed.Ascending, ← List.pairwise_map] at hascending ⊢
  change (Keyed.keys entries).Pairwise (· < ·)
  rw [hkeys]
  exact hascending

theorem exists_slot_of_keys (hdistinct : Distinct slots) {entries : List (String × Tree)}
    (hkeys : Keyed.keys entries = Slot.names slots) {entry : String × Tree}
    (hentry : entry ∈ entries) : ∃ slot ∈ slots, slot.member.name = entry.1 := by
  have hperm : (Slot.names slots).Perm (slots.map fun slot => slot.member.name) := by
    have hpairs : ((slots.map fun slot => (slot.member.name, ())).map Prod.fst).Nodup := by
      rw [List.map_map]
      exact hdistinct.nodup
    have hmap := (Keyed.perm_ofList hpairs).map Prod.fst
    rwa [List.map_map] at hmap
  have hname : entry.1 ∈ Slot.names slots := hkeys ▸ List.mem_map_of_mem hentry
  exact List.mem_map.mp (hperm.mem_iff.mp hname)

/-- A group restores a table with a member for every slot and no other. -/
theorem Restores.of_slots (hassembles : Assembles view group slots) (hdistinct : Distinct slots)
    {entries : List (String × Tree)} (hkeys : Keyed.keys entries = Slot.names slots)
    (hslots : ∀ slot ∈ slots, slot.RestoredIn entries) :
    Restores view (groupFields slots) (.table entries) := by
  have hascending := ascending_of_keys hkeys
  have hmember {key : String} {whole : Tree} (hwhole : Keyed.get? entries key = some whole) :
      ∃ slot ∈ slots, slot.member.name = key ∧ Restores slot.view slot.fields whole := by
    obtain ⟨slot, hslot, rfl⟩ := exists_slot_of_keys hdistinct hkeys (Keyed.mem_of_get? hwhole)
    obtain ⟨child, hchild, hrestores, -⟩ := hslots slot hslot
    obtain rfl := Option.some.inj (hwhole.symm.trans hchild)
    exact ⟨slot, hslot, rfl, hrestores⟩
  constructor
  · refine Tree.canonical_table_iff.mpr ⟨hascending, fun entry hentry => ?_⟩
    obtain ⟨slot, -, -, hrestores⟩ := hmember ((Keyed.get?_eq_some_iff hascending).mpr hentry)
    exact hrestores.canonical
  · intro tree htree
    obtain ⟨kept, rfl, hkept⟩ := htree.exists_of_table hascending
    have hread : group.read (.table kept) = .ok ⟨kept, .missingMember⟩ := by
      apply read_table_eq_ok hassembles hdistinct
      intro entry hentry
      obtain ⟨whole, hwhole, htrims⟩ :=
        hkept.trims entry.1 entry.2 ((Keyed.get?_eq_some_iff hkept.ascending).mpr hentry)
      obtain ⟨slot, hslot, hname, hrestores⟩ := hmember hwhole
      obtain ⟨out, hout, -⟩ := hrestores.restored entry.2 htrims
      exact ⟨slot, hslot, hname, out, hout⟩
    exact exists_view_of_values hassembles hread (fun field => (Tree.table entries).at? field.keys)
      fun slot hslot => (hslots slot hslot).exists_value hkept

end Group

end Decode

/-! ### The groups of settings -/

theorem IdentitySettings.restores (settings : IdentitySettings) :
    Restores (fun tree => (decode tree).map Settings.identityTree) (groupFields slots)
      (Settings.identityTree settings) := by
  refine .of_slots assembles (by decide) rfl ?_
  simp only [slots, List.forall_mem_cons, List.not_mem_nil]
  exact ⟨.present rfl (restores_string _) rfl,
    .present rfl (restores_string _) rfl,
    by simp⟩

theorem DatabaseSettings.restores (settings : DatabaseSettings) :
    Restores (fun tree => (decode tree).map Settings.databaseTree) (groupFields slots)
      (Settings.databaseTree settings) := by
  refine .of_slots assembles (by decide) rfl ?_
  simp only [slots, List.forall_mem_cons, List.not_mem_nil]
  exact ⟨.present rfl (restores_string _) rfl,
    by simp⟩

theorem GraphNodeSettings.restores (settings : GraphNodeSettings) :
    Restores (fun tree => (decode tree).map Settings.graphNodeTree) (groupFields slots)
      (Settings.graphNodeTree settings) := by
  refine .of_slots assembles (by decide) rfl ?_
  simp only [slots, List.forall_mem_cons, List.not_mem_nil]
  exact ⟨.present rfl (restores_string _) rfl,
    .present rfl (restores_string _) rfl,
    by simp⟩

theorem MetricsSettings.restores (settings : MetricsSettings) :
    Restores (fun tree => (decode tree).map Settings.metricsTree) (groupFields slots)
      (Settings.metricsTree settings) := by
  refine .of_slots assembles (by decide) rfl ?_
  simp only [slots, List.forall_mem_cons, List.not_mem_nil]
  exact ⟨.present rfl (restores_word16 _) rfl,
    by simp⟩

theorem NetworkSubgraphSettings.restores (settings : NetworkSubgraphSettings) :
    Restores (fun tree => (decode tree).map Settings.networkTree) (groupFields slots)
      (Settings.networkTree settings) := by
  refine .of_slots assembles (by decide) rfl ?_
  simp only [slots, List.forall_mem_cons, List.not_mem_nil]
  exact ⟨.present rfl (restores_string _) rfl,
    .nullable rfl (restores_nullable_string _) rfl,
    .nullable rfl (restores_nullable_string _) rfl,
    .present rfl (restores_word64 _) rfl,
    .present rfl (restores_word64 _) rfl,
    by simp⟩

theorem EscrowSubgraphSettings.restores (settings : EscrowSubgraphSettings) :
    Restores (fun tree => (decode tree).map Settings.escrowTree) (groupFields slots)
      (Settings.escrowTree settings) := by
  refine .of_slots assembles (by decide) rfl ?_
  simp only [slots, List.forall_mem_cons, List.not_mem_nil]
  exact ⟨.present rfl (restores_string _) rfl,
    .nullable rfl (restores_nullable_string _) rfl,
    .present rfl (restores_string _) rfl,
    .present rfl (restores_word64 _) rfl,
    by simp⟩

theorem SubgraphSettings.restores (settings : SubgraphSettings) :
    Restores (fun tree => (decode tree).map Settings.subgraphsTree) (groupFields slots)
      (Settings.subgraphsTree settings) := by
  refine .of_slots assembles (by decide) rfl ?_
  simp only [slots, List.forall_mem_cons, List.not_mem_nil]
  exact ⟨.present rfl (NetworkSubgraphSettings.restores _) rfl,
    .present rfl (EscrowSubgraphSettings.restores _) rfl,
    by simp⟩

theorem BlockchainSettings.restores (settings : BlockchainSettings) :
    Restores (fun tree => (decode tree).map Settings.blockchainTree) (groupFields slots)
      (Settings.blockchainTree settings) := by
  refine .of_slots assembles (by decide) rfl ?_
  simp only [slots, List.forall_mem_cons, List.not_mem_nil]
  exact ⟨.present rfl (restores_word64 _) rfl,
    .present rfl (restores_string _) rfl,
    by simp⟩

theorem ServiceSettings.restores (settings : ServiceSettings) :
    Restores (fun tree => (decode tree).map Settings.serviceTree) (groupFields slots)
      (Settings.serviceTree settings) := by
  refine .of_slots assembles (by decide) rfl ?_
  simp only [slots, List.forall_mem_cons, List.not_mem_nil]
  exact ⟨.present rfl (restores_string _) rfl,
    .present rfl (restores_string _) rfl,
    .present rfl (restores_bool _) rfl,
    .present rfl (restores_bool _) rfl,
    .nullable rfl (restores_nullable_string _) rfl,
    .nullable rfl (restores_nullable_string _) rfl,
    by simp⟩

theorem TapSettings.restores (settings : TapSettings) :
    Restores (fun tree => (decode tree).map Settings.tapTree) (groupFields slots)
      (Settings.tapTree settings) := by
  refine .of_slots assembles (by decide) rfl ?_
  simp only [slots, List.forall_mem_cons, List.not_mem_nil]
  exact ⟨.present rfl (restores_float _) rfl,
    by simp⟩

namespace Settings

theorem restores (settings : Settings) :
    Restores (fun tree => (decode tree).map toTree) Schema.indexer.fields settings.toTree := by
  rw [← groupFields_slots]
  refine .of_slots assembles (by decide) rfl ?_
  simp only [slots, List.forall_mem_cons, List.not_mem_nil]
  exact ⟨.present rfl (IdentitySettings.restores _) rfl,
    .present rfl (DatabaseSettings.restores _) rfl,
    .present rfl (GraphNodeSettings.restores _) rfl,
    .present rfl (MetricsSettings.restores _) rfl,
    .present rfl (SubgraphSettings.restores _) rfl,
    .present rfl (BlockchainSettings.restores _) rfl,
    .present rfl (ServiceSettings.restores _) rfl,
    .present rfl (TapSettings.restores _) rfl,
    by simp⟩

theorem decode_of_trims (settings : Settings) {tree : Tree} (h : settings.toTree.Trims tree) :
    decode tree = .ok settings := by
  obtain ⟨out, hout, hfields⟩ := settings.restores.restored tree h
  obtain ⟨decoded, hdecode, rfl⟩ := map_eq_ok.mp hout
  rw [hdecode, eq_of_fields hfields]

/-- Without the nulls nothing is null, and what should be a table is one. -/
theorem clean_withoutNulls (settings : Settings) :
    Clean Schema.indexer.fields settings.toTree.withoutNulls where
  value field hfield hnull := by
    have hkeys := (Schema.indexer_plain field hfield).1
    rw [Tree.at?_withoutNulls settings.restores.canonical hkeys] at hnull
    obtain ⟨value, -, hkept⟩ := Option.bind_eq_some_iff.mp hnull
    obtain ⟨hne, heq⟩ := Tree.kept?_eq_some_iff.mp hkept
    exact hne ((Tree.withoutNulls_eq_leaf_iff rfl).mp heq)
  table field hfield above key below hkeys items hitems := by
    obtain ⟨value, hvalue, -⟩ := settings.holds_fields field hfield
    rw [hkeys] at hvalue
    obtain ⟨entries, hentries⟩ := Tree.isTable_of_at?_append_cons hvalue
    by_cases hroot : above = []
    · subst hroot
      cases hitems
    · rw [Tree.at?_withoutNulls settings.restores.canonical hroot, hentries] at hitems
      cases hitems

theorem violations_withoutNulls (settings : Settings) (record : Provenance) :
    Schema.indexer.violations settings.toTree.withoutNulls record = [] := by
  have hcanonical := Tree.canonical_withoutNulls settings.restores.canonical
  obtain ⟨out, hout, -⟩ := settings.restores.restored _ (Or.inr rfl)
  have hagrees := groupFields_slots ▸ agrees
  rw [indexer_violations_eq_nil_iff record hcanonical]
  exact hagrees.sound _ out hcanonical settings.clean_withoutNulls hout

end Settings

/-- **Settings come back from their data.** Settings with a finite limit are decoded from what they
are written out as. Without its nulls, the same tree has nothing that the schema finds wrong, and a
resolution that has merged it and found no problem in its sources ends with the settings, or fails
with what is wrong with them. -/
theorem settings_roundtrip_serialize (settings : Settings)
    (hfinite : Decimal.finite settings.tap.maxAmountWillingToLoseGrt = true) :
    Settings.decode settings.serialize = .ok settings
    ∧ (∀ record, Schema.indexer.violations settings.serialize.withoutNulls record = [])
    ∧ ∀ state : Resolution, state.merged = settings.serialize.withoutNulls →
      state.violations = [] →
      (state.finish Schema.indexer).result
        = if settings.violations = [] then .ok ⟨settings, state.layers, state.provenance⟩
          else .error ⟨settings.violations⟩ := by
  have hserialize : settings.serialize = settings.toTree := if_pos hfinite
  rw [hserialize]
  refine ⟨settings.decode_of_trims (Or.inl rfl), settings.violations_withoutNulls, ?_⟩
  intro state hmerged hsources
  apply finish_of_decode
  · rw [hsources, hmerged, settings.violations_withoutNulls, List.append_nil]
  · rw [hmerged]
    exact settings.decode_of_trims (Or.inr rfl)

/-- Three members of these settings are written as nulls. -/
theorem settings_roundtrip_serialize_full :
    let state : Resolution :=
      ⟨fullSettings.serialize.withoutNulls, by decide +kernel, .empty, [], []⟩
    Decimal.finite fullSettings.tap.maxAmountWillingToLoseGrt = true
      ∧ Settings.decode fullSettings.serialize = .ok fullSettings
      ∧ fullSettings.serialize.at? ["service", "free_query_auth_token"] = some .null
      ∧ (state.finish Schema.indexer).result = .ok ⟨fullSettings, [], .empty⟩ := by
  intro state
  have hfinite : Decimal.finite fullSettings.tap.maxAmountWillingToLoseGrt = true := by
    decide +kernel
  have hnull : fullSettings.serialize.at? ["service", "free_query_auth_token"] = some .null := by
    decide +kernel
  have hvalid : fullSettings.violations = [] := by decide +kernel
  obtain ⟨hdecode, -, hfinish⟩ := settings_roundtrip_serialize fullSettings hfinite
  have hresult := hfinish state rfl rfl
  rw [if_pos hvalid] at hresult
  exact ⟨hfinite, hdecode, hnull, hresult⟩

end LayeredConfig
