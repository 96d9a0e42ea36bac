import FileMesh.Text.Blank
import FileMesh.Text.Utf8
import Mathlib.Tactic.Common

/-!
# Characters, bytes and parts

The bytes of a text are those of its characters, one after the other, and only NUL has a zero byte
among them. The parts of a text between separators have no separator in them; joined, they give the
text back.
-/

namespace FileMesh

/-! ## Bytes -/

namespace Utf8

theorem zero_mem_utf8EncodeChar_iff (c : Char) : 0 ∈ String.utf8EncodeChar c ↔ c = '\x00' := by
  have hzero {n k : Nat} (hn : n < k) (m : Nat) (hm : 0 < m) (hk : k + m ≤ 256) :
      (0 : UInt8) ≠ UInt8.ofNat (n + m) := by
    intro h
    have := congrArg UInt8.toNat h
    rw [UInt8.toNat_ofNat', UInt8.toNat_zero, Nat.mod_eq_of_lt (by omega)] at this
    omega
  have hmod (n k : Nat) (hk : 0 < k) : n % k < k := Nat.mod_lt n hk
  constructor
  · intro h
    simp only [String.utf8EncodeChar] at h
    split at h
    · rename_i h7
      rw [List.mem_singleton] at h
      have hval := congrArg UInt8.toNat h
      rw [UInt8.toNat_ofNat', UInt8.toNat_zero, Nat.mod_eq_of_lt (by omega)] at hval
      exact Char.ext (UInt32.toNat_inj.1 hval.symm)
    · exfalso
      split at h
      · simp only [List.mem_cons, List.not_mem_nil, or_false] at h
        rcases h with h | h
        · exact hzero (hmod _ 32 (by decide)) 192 (by decide) (by decide) h
        · exact hzero (hmod _ 64 (by decide)) 128 (by decide) (by decide) h
      · split at h
        · simp only [List.mem_cons, List.not_mem_nil, or_false] at h
          rcases h with h | h | h
          · exact hzero (hmod _ 16 (by decide)) 224 (by decide) (by decide) h
          · exact hzero (hmod _ 64 (by decide)) 128 (by decide) (by decide) h
          · exact hzero (hmod _ 64 (by decide)) 128 (by decide) (by decide) h
        · simp only [List.mem_cons, List.not_mem_nil, or_false] at h
          rcases h with h | h | h | h
          · exact hzero (hmod _ 8 (by decide)) 240 (by decide) (by decide) h
          · exact hzero (hmod _ 64 (by decide)) 128 (by decide) (by decide) h
          · exact hzero (hmod _ 64 (by decide)) 128 (by decide) (by decide) h
          · exact hzero (hmod _ 64 (by decide)) 128 (by decide) (by decide) h
  · rintro rfl
    decide

theorem encode_eq_flatMap (s : String) : encode s = s.toList.flatMap String.utf8EncodeChar := by
  rw [encode, ← String.utf8Encode_toList, List.utf8Encode]
  simp

/-- A zero byte stands for NUL only. -/
theorem zero_mem_encode_iff (s : String) : 0 ∈ encode s ↔ '\x00' ∈ s.toList := by
  rw [encode_eq_flatMap, List.mem_flatMap]
  simp only [zero_mem_utf8EncodeChar_iff, exists_eq_right]

/-- What precedes the first zero byte of a text is a text. -/
theorem exists_encode_eq_takeWhile (s : String) :
    ∃ t, encode t = (encode s).takeWhile (· != 0) := by
  refine ⟨.ofList (s.toList.takeWhile (· != '\x00')), ?_⟩
  rw [encode_eq_flatMap, encode_eq_flatMap, String.toList_ofList]
  induction s.toList with
  | nil => rfl
  | cons c l ih =>
    rw [List.flatMap_cons]
    by_cases hc : c = '\x00'
    · rw [hc]
      rfl
    · have hne : ∀ b ∈ String.utf8EncodeChar c, (b != 0) = true := fun b hb =>
        bne_iff_ne.2 fun h0 => hc ((zero_mem_utf8EncodeChar_iff c).1 (h0 ▸ hb))
      have hkeep : (c != '\x00') = true := bne_iff_ne.2 hc
      rw [List.takeWhile_append_of_pos hne, ← ih,
        List.takeWhile_cons_of_pos (p := (· != '\x00')) hkeep, List.flatMap_cons]

theorem length_encode_le_of_sublist {s t : String} (h : s.toList.Sublist t.toList) :
    (encode s).length ≤ (encode t).length := by
  rw [encode_eq_flatMap, encode_eq_flatMap]
  generalize s.toList = l at h ⊢
  generalize t.toList = l' at h ⊢
  induction h with
  | slnil => exact Nat.le_refl _
  | cons c _ ih =>
    rw [List.flatMap_cons, List.length_append]
    omega
  | cons_cons c _ ih =>
    rw [List.flatMap_cons, List.flatMap_cons, List.length_append, List.length_append]
    omega

end Utf8

/-! ## Splitting -/

namespace Text

/-- Joining fewer parts gives a part of the text. -/
theorem intercalate_sublist {α : Type} (sep : List α) {l l' : List (List α)} (h : l.Sublist l') :
    (sep.intercalate l).Sublist (sep.intercalate l') := by
  induction h with
  | slnil => exact .refl _
  | cons a h ih =>
    rename_i l₁ l₂
    by_cases h0 : l₂ = []
    · subst h0
      rw [List.sublist_nil.1 h]
      exact List.nil_sublist _
    · rw [List.intercalate_cons_of_ne_nil h0]
      exact ih.trans (List.sublist_append_right _ _)
  | cons_cons a h ih =>
    rename_i l₁ l₂
    by_cases h0 : l₁ = []
    · subst h0
      rw [List.intercalate_singleton]
      by_cases h0' : l₂ = []
      · subst h0'
        simp [List.intercalate_singleton]
      · rw [List.intercalate_cons_of_ne_nil h0', List.append_assoc]
        exact List.sublist_append_left _ _
    · have h0' : l₂ ≠ [] := fun he => h0 (List.sublist_nil.1 (he ▸ h))
      rw [List.intercalate_cons_of_ne_nil h0, List.intercalate_cons_of_ne_nil h0']
      exact (List.Sublist.refl _).append ih

variable {α : Type} [BEq α]

theorem splitOn_eq (sep : α) (l : List α) : splitOn sep l = l.splitOn sep := by
  induction l with
  | nil => rfl
  | cons c rest ih =>
    rw [splitOn, List.splitOn_cons_eq_if_modifyHead, ih]
    cases hs : rest.splitOn sep with
    | nil => exact absurd hs (List.splitOn_ne_nil sep rest)
    | cons part parts => rfl

/-- No part contains the separator. -/
theorem notMem_of_mem_splitOn [LawfulBEq α] {sep : α} {l part : List α}
    (h : part ∈ l.splitOn sep) : sep ∉ part := by
  induction l generalizing part with
  | nil =>
    rw [List.splitOn_nil, List.mem_singleton] at h
    rw [h]
    exact List.not_mem_nil
  | cons c rest ih =>
    rw [List.splitOn_cons_eq_if_modifyHead] at h
    split at h
    · rcases List.mem_cons.1 h with rfl | h
      · exact List.not_mem_nil
      · exact ih h
    · rename_i hc
      cases hs : rest.splitOn sep with
      | nil => exact absurd hs (List.splitOn_ne_nil sep rest)
      | cons first parts =>
        rw [hs] at h ih
        rcases List.mem_cons.1 h with rfl | h
        · rw [List.mem_cons, not_or]
          exact ⟨fun heq => hc (beq_iff_eq.2 heq.symm), ih List.mem_cons_self⟩
        · exact ih (List.mem_cons_of_mem _ h)

end Text

end FileMesh
