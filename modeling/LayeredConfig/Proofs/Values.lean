import LayeredConfig.Proofs.Groups
import LayeredConfig.Settings.Encode

/-!
# Decoding single values

The decoders of single values agree with a field of their kind. Words of 16 bits need the field to
be bounded, and only a null tells a decoder that takes nulls from the field.
-/

namespace LayeredConfig

open Decode

theorem conforms_leaf_iff {field : Field} (hkeys : field.keys = []) {tree : Tree} :
    Conforms [field] tree ↔ field.Takes tree := by
  constructor
  · intro hconforms
    exact (hconforms.met field List.mem_cons_self).taken tree (by rw [hkeys, Tree.at?_nil])
  · intro htakes
    have hnode : tree.at? field.keys = some tree := by rw [hkeys, Tree.at?_nil]
    constructor
    · intro other hother
      obtain rfl := List.mem_singleton.mp hother
      refine ⟨hkeys ▸ Tree.not_blocks_nil tree, ?_, by simp [hnode]⟩
      intro value hvalue
      rw [hnode] at hvalue
      exact Option.some.inj hvalue ▸ htakes
    · intro route node _
      exact ⟨field, List.mem_cons_self, Or.inr (hkeys ▸ List.nil_prefix)⟩

namespace Decode

theorem Agrees.of_leaf {view : Tree → Decoded Tree} {field : Field} {defaults? : Option Tree}
    (hkeys : field.keys = [])
    (hcomplete : ∀ tree, field.Takes tree → view tree = .ok (field.kind.typed tree))
    (hsound : ∀ tree out, tree ≠ .null → view tree = .ok out → field.Takes tree) :
    Agrees view [field] defaults? := by
  constructor
  · intro tree _ hconforms
    refine ⟨_, hcomplete tree ((conforms_leaf_iff hkeys).mp hconforms), ?_⟩
    intro other hother
    obtain rfl := List.mem_singleton.mp hother
    simp [settled, hkeys]
  · intro tree out _ hclean hview
    have hvalue := hclean.value field List.mem_cons_self
    rw [hkeys, Tree.at?_nil] at hvalue
    exact (conforms_leaf_iff hkeys).mpr (hsound tree out (fun h => hvalue (congrArg some h)) hview)

variable {required : Bool} {defaults? : Option Tree}

theorem agrees_string :
    Agrees (fun tree => (string tree).map .string) [⟨[], .string, required, none⟩] defaults? := by
  apply Agrees.of_leaf rfl
  · rintro tree ⟨haccepts, -⟩
    cases tree <;> first | rfl | simp [Kind.accepts] at haccepts
  · intro tree out _ hview
    cases tree <;> simp [string, Except.map, Field.Takes, Kind.accepts] at hview ⊢

theorem agrees_nullable_string :
    Agrees (fun tree => (nullable string tree).map Encode.nullable) [⟨[], .string, required, none⟩]
      defaults? := by
  apply Agrees.of_leaf rfl
  · rintro tree ⟨haccepts, -⟩
    cases tree <;> first | rfl | simp [Kind.accepts] at haccepts
  · intro tree out hnull hview
    cases tree <;>
      simp [nullable, string, Except.map, Field.Takes, Kind.accepts] at hview hnull ⊢

theorem agrees_bool :
    Agrees (fun tree => (bool tree).map .bool) [⟨[], .bool, required, none⟩] defaults? := by
  apply Agrees.of_leaf rfl
  · rintro tree ⟨haccepts, -⟩
    cases tree <;> first | rfl | simp [Kind.accepts] at haccepts
  · intro tree out _ hview
    cases tree <;> simp [bool, Except.map, Field.Takes, Kind.accepts] at hview ⊢

theorem agrees_float :
    Agrees (fun tree => (float tree).map .float) [⟨[], .float, required, none⟩] defaults? := by
  apply Agrees.of_leaf rfl
  · rintro tree ⟨haccepts, -⟩
    cases tree <;> first | rfl | simp [Kind.accepts] at haccepts
  · intro tree out _ hview
    cases tree <;> simp [float, Except.map, Field.Takes, Kind.accepts] at hview ⊢

theorem agrees_word64 :
    Agrees (fun tree => (word64 tree).map Encode.word64) [⟨[], .integer, required, none⟩]
      defaults? := by
  apply Agrees.of_leaf rfl
  · rintro tree ⟨haccepts, -⟩
    cases tree with
    | int n =>
      have hrange : 0 ≤ n ∧ n < 2 ^ 64 := by simpa [Kind.accepts] using haccepts
      have hword : ((UInt64.ofNat n.toNat).toNat : Int) = n := by
        rw [UInt64.toNat_ofNat']
        omega
      have hnatural : natural 64 (.int n) = .ok n.toNat := if_pos hrange
      change (word64 (.int n)).map Encode.word64 = .ok (.int n)
      rw [word64, hnatural]
      exact congrArg (fun m => Except.ok (Tree.int m)) hword
    | _ => simp [Kind.accepts] at haccepts
  · intro tree out _ hview
    cases tree with
    | int n =>
      by_cases hrange : 0 ≤ n ∧ n < 2 ^ 64
      · exact ⟨by simpa [Kind.accepts] using hrange, by simp⟩
      · have hnatural : natural 64 (.int n) = .error (.outOfRange n "u64") := if_neg hrange
        simp [word64, hnatural, Except.map] at hview
    | _ => simp [word64, natural, Except.map] at hview

theorem agrees_word16 :
    Agrees (fun tree => (word16 tree).map Encode.word16) [⟨[], .integer, required, some 65535⟩]
      defaults? := by
  apply Agrees.of_leaf rfl
  · rintro tree ⟨haccepts, hmax⟩
    cases tree with
    | int n =>
      have haccepted : 0 ≤ n ∧ n < 2 ^ 64 := by simpa [Kind.accepts] using haccepts
      have hbound : n ≤ 65535 := hmax 65535 n rfl rfl
      have hrange : 0 ≤ n ∧ n < 2 ^ 16 := by omega
      have hword : ((UInt16.ofNat n.toNat).toNat : Int) = n := by
        rw [UInt16.toNat_ofNat']
        omega
      have hnatural : natural 16 (.int n) = .ok n.toNat := if_pos hrange
      change (word16 (.int n)).map Encode.word16 = .ok (.int n)
      rw [word16, hnatural]
      exact congrArg (fun m => Except.ok (Tree.int m)) hword
    | _ => simp [Kind.accepts] at haccepts
  · intro tree out _ hview
    cases tree with
    | int n =>
      by_cases hrange : 0 ≤ n ∧ n < 2 ^ 16
      · refine ⟨by simp [Kind.accepts]; omega, ?_⟩
        rintro max number hmax hnumber
        obtain rfl := Option.some.inj hmax
        obtain rfl := Tree.int.inj hnumber
        omega
      · have hnatural : natural 16 (.int n) = .error (.outOfRange n "u16") := if_neg hrange
        simp [word16, hnatural, Except.map] at hview
    | _ => simp [word16, natural, Except.map] at hview

end Decode

end LayeredConfig
