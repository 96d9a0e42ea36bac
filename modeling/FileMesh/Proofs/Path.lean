import FileMesh.Path
import FileMesh.Proofs.Text

/-!
# Paths and their pieces

A path is taken apart at its separators, and the path without its last part is put together from
what comes before. Whatever was left out on the way says nothing, so what is put together goes the
same way as the path up to its last step.
-/

namespace FileMesh

namespace Path

variable {path p : String}

theorem pieces_eq (path : String) : pieces path =
    ((path.toList.splitOn '/').filter fun p => !p.isEmpty).map String.ofList := by
  rw [pieces, Text.splitOn_eq]

theorem slash_notMem_of_mem_pieces {piece : String} (h : piece ∈ pieces path) :
    '/' ∉ piece.toList := by
  rw [pieces_eq] at h
  obtain ⟨part, hm, rfl⟩ := List.mem_map.1 h
  rw [String.toList_ofList]
  exact Text.notMem_of_mem_splitOn (List.mem_filter.1 hm).1

theorem ne_empty_of_mem_pieces {piece : String} (h : piece ∈ pieces path) : piece ≠ "" := by
  rw [pieces_eq] at h
  obtain ⟨part, hm, rfl⟩ := List.mem_map.1 h
  have hne := (List.mem_filter.1 hm).2
  rintro he
  rw [← String.toList_inj, String.toList_ofList] at he
  rw [he] at hne
  cases hne

theorem pieces_sublist (path : String) :
    ((pieces path).map String.toList).Sublist (path.toList.splitOn '/') := by
  rw [pieces_eq, List.map_map]
  have hid : String.toList ∘ String.ofList = id := funext fun l => String.toList_ofList
  rw [hid, List.map_id]
  exact List.filter_sublist

/-- A piece of a path is a part of its text. -/
theorem toList_sublist_of_mem_pieces {piece : String} (h : piece ∈ pieces path) :
    piece.toList.Sublist path.toList := by
  have hpiece : [piece.toList].Sublist ((pieces path).map String.toList) :=
    List.singleton_sublist.2 (List.mem_map_of_mem h)
  have hsub := Text.intercalate_sublist ['/'] (hpiece.trans (pieces_sublist path))
  rwa [List.intercalate_singleton, List.intercalate_splitOn] at hsub

/-- The pieces of a path that was put together are what it was put together from. -/
theorem pieces_intercalate {parts : List String} (h : ∀ part ∈ parts, '/' ∉ part.toList) :
    pieces ("/".intercalate parts) = parts.filter (· ≠ "") := by
  by_cases h0 : parts = []
  · subst h0
    rfl
  · have hsplit : (("/".intercalate parts).toList).splitOn '/' = parts.map String.toList := by
      rw [String.toList_intercalate]
      refine List.splitOn_intercalate '/' (fun l hl => ?_) (by simpa using h0)
      obtain ⟨part, hm, rfl⟩ := List.mem_map.1 hl
      exact h part hm
    rw [pieces_eq, hsplit, List.filter_map, List.map_map]
    have hid : String.ofList ∘ String.toList = id := funext fun s => String.ofList_toList
    rw [hid, List.map_id]
    refine List.filter_congr ?_
    intro part _
    rw [Function.comp_apply, Bool.eq_iff_iff]
    simp

/-! ## The path without its last part -/

/-- The pieces that lead somewhere: a dot does not. -/
def steps (path : String) : List String := (pieces path).filter (· ≠ ".")

theorem text_of_inner? {piece : String} {c : Component} (h : inner? piece = some c) :
    c.text = piece := by
  rw [inner?] at h
  split at h
  · cases h
  · split at h
    · rename_i hup
      cases h
      exact hup.symm
    · cases h
      rfl

theorem map_text_filterMap (l : List String) :
    (l.filterMap inner?).map Component.text = l.filter (· ≠ ".") := by
  induction l with
  | nil => rfl
  | cons piece l ih =>
    by_cases hdot : piece = "."
    · subst hdot
      simp only [List.filterMap_cons, inner?, if_true, ih]
      rfl
    · obtain ⟨c, hc⟩ : ∃ c, inner? piece = some c := by
        rw [inner?, if_neg hdot]
        split
        · exact ⟨_, rfl⟩
        · exact ⟨_, rfl⟩
      rw [List.filterMap_cons_some hc, List.map_cons, ih, text_of_inner? hc,
        List.filter_cons_of_pos (by simpa using hdot)]

/-- What stands before the steps: the root or a dot. -/
inductive Prefix (path : String) : List Component → Prop where
  | root (h : isAbsolute path = true) : Prefix path [.root]
  | here (h : isAbsolute path = false) (hd : (pieces path).head? = some ".") : Prefix path [.here]
  | nothing (h : isAbsolute path = false) : Prefix path []

theorem exists_prefix (path : String) :
    ∃ pre, Prefix path pre ∧ components path = pre ++ (pieces path).filterMap inner? := by
  simp only [components]
  cases ha : isAbsolute path with
  | true => exact ⟨_, .root ha, rfl⟩
  | false =>
    by_cases hd : (pieces path).head? = some "."
    · exact ⟨_, .here ha hd, by simp [hd]⟩
    · exact ⟨_, .nothing ha, by simp [hd]⟩

/-- A path that has one without its last part has a last step. Before that there is the root alone,
or the text of what stands before. -/
theorem exists_of_parent? (h : (parent? path).filter (· ≠ "") = some p) :
    ∃ before last pre, steps path = before ++ [last] ∧ Prefix path pre ∧
      (p = "/" ∨ (before ≠ [] ∨ pre = [.here]) ∧
        p = "/".intercalate (pre.map Component.text ++ before)) := by
  obtain ⟨pre, hpre, hcomponents⟩ := exists_prefix path
  have hsteps : ((pieces path).filterMap inner?).map Component.text = steps path :=
    map_text_filterMap _
  rw [Option.filter_eq_some_iff, decide_eq_true_iff, parent?] at h
  obtain ⟨h, hne⟩ := h
  split at h
  · cases h
  · cases h
  · rw [Option.some_inj, hcomponents] at h
    rcases List.eq_nil_or_concat ((pieces path).filterMap inner?) with hnil | ⟨parts, x, hparts⟩
    · -- Nothing is left of a path that is only a prefix.
      rw [hnil, List.append_nil] at h
      have hempty : pre.dropLast = [] := by cases hpre <;> rfl
      rw [hempty] at h
      exact absurd h.symm hne
    · rw [List.concat_eq_append] at hparts
      rw [hparts, ← List.append_assoc, List.dropLast_concat] at h
      rw [hparts, List.map_append] at hsteps
      refine ⟨parts.map Component.text, x.text, pre, hsteps.symm, hpre, ?_⟩
      by_cases hroot : pre ++ parts = [.root]
      · rw [hroot] at h
        exact .inl h.symm
      · have hp : p = "/".intercalate (pre.map Component.text ++ parts.map Component.text) := by
          rw [← h, ← List.map_append, ofComponents]
          exact fun he => hroot he
        refine .inr ⟨?_, hp⟩
        by_cases hnil : parts = []
        · subst hnil
          cases hpre with
          | root => exact absurd rfl hroot
          | here => exact .inr rfl
          | nothing => exact absurd hp hne
        · exact .inl (by simpa using hnil)

theorem isAbsolute_intercalate_cons {part : String} {parts : List String} (hne : part ≠ "")
    (hs : '/' ∉ part.toList) : isAbsolute ("/".intercalate (part :: parts)) = false := by
  rw [isAbsolute, String.toList_intercalate, List.map_cons]
  cases hl : part.toList with
  | nil => exact absurd (String.toList_eq_nil_iff.1 hl) hne
  | cons c cs =>
    rw [hl, List.mem_cons, not_or] at hs
    rw [List.intercalate_cons_cons_left, List.head?_cons]
    simpa using Ne.symm hs.1

theorem isAbsolute_intercalate_empty {parts : List String} (h : parts ≠ []) :
    isAbsolute ("/".intercalate ("" :: parts)) = true := by
  rw [isAbsolute, String.toList_intercalate, List.map_cons,
    List.intercalate_cons_of_ne_nil (by simpa using h)]
  rfl

section Text

variable {before : List String} {pre : List Component}

theorem steps_sublist (path : String) : (steps path).Sublist (pieces path) := List.filter_sublist

theorem mem_pieces_of_steps (h : before.Sublist (steps path)) {piece : String}
    (hm : piece ∈ before) : piece ∈ pieces path :=
  (h.trans (steps_sublist path)).subset hm

/-- The text of some of the steps is a part of the path. -/
theorem text_sublist (hpre : Prefix path pre) (h : before.Sublist (steps path)) :
    ("/".intercalate (pre.map Component.text ++ before)).toList.Sublist path.toList := by
  have hparts : ((pre.map Component.text ++ before).map String.toList).Sublist
      (path.toList.splitOn '/') := by
    cases hpre with
    | root ha =>
      obtain ⟨rest, hrest⟩ : ∃ rest, path.toList = '/' :: rest := by
        rw [isAbsolute, beq_iff_eq] at ha
        exact List.head?_eq_some_iff.1 ha
      have hsplit : path.toList.splitOn '/' = [] :: rest.splitOn '/' := by
        rw [hrest, List.splitOn_cons_eq_if_modifyHead]
        rfl
      have hpieces : (pieces path).map String.toList =
          (rest.splitOn '/').filter fun p => !p.isEmpty := by
        have hid : String.toList ∘ String.ofList = id := funext fun l => String.toList_ofList
        rw [pieces_eq, hsplit, List.map_map, hid, List.map_id]
        rfl
      rw [hsplit]
      refine List.Sublist.cons_cons [] ?_
      refine ((h.trans (steps_sublist path)).map String.toList).trans ?_
      rw [hpieces]
      exact List.filter_sublist
    | here ha hd =>
      obtain ⟨rest, hrest⟩ := List.head?_eq_some_iff.1 hd
      have hsteps : steps path = rest.filter (· ≠ ".") := by
        rw [steps, hrest]
        rfl
      have hsub : ("." :: before).Sublist (pieces path) := by
        rw [hrest]
        exact (h.trans (hsteps ▸ List.filter_sublist)).cons_cons "."
      exact (hsub.map String.toList).trans (pieces_sublist path)
    | nothing ha =>
      exact ((h.trans (steps_sublist path)).map String.toList).trans (pieces_sublist path)
  have hjoin := Text.intercalate_sublist ['/'] hparts
  rw [List.intercalate_splitOn] at hjoin
  rw [String.toList_intercalate]
  exact hjoin

/-- The pieces of this text are the steps, and a dot if there was one at the beginning. -/
theorem pieces_text (hpre : Prefix path pre) (h : before.Sublist (steps path)) :
    pieces ("/".intercalate (pre.map Component.text ++ before)) =
      (pre.map Component.text).filter (· ≠ "") ++ before := by
  have hbefore : before.filter (· ≠ "") = before := by
    refine List.filter_eq_self.2 ?_
    intro piece hm
    simpa using ne_empty_of_mem_pieces (mem_pieces_of_steps h hm)
  rw [pieces_intercalate, List.filter_append, hbefore]
  intro part hm
  rcases List.mem_append.1 hm with hm | hm
  · obtain ⟨c, hc, rfl⟩ := List.mem_map.1 hm
    cases hpre with
    | root => rw [List.mem_singleton.1 hc]; decide
    | here => rw [List.mem_singleton.1 hc]; decide
    | nothing => cases hc
  · exact slash_notMem_of_mem_pieces (mem_pieces_of_steps h hm)

/-- It starts where the path starts. -/
theorem isAbsolute_text (hpre : Prefix path pre) (h : before.Sublist (steps path))
    (hne : before ≠ [] ∨ pre = [.here]) :
    isAbsolute ("/".intercalate (pre.map Component.text ++ before)) = isAbsolute path := by
  cases hpre with
  | root ha =>
    rw [ha]
    exact isAbsolute_intercalate_empty (hne.resolve_right (by simp))
  | here ha hd =>
    rw [ha]
    exact isAbsolute_intercalate_cons (by decide) (by decide)
  | nothing ha =>
    rw [ha]
    cases before with
    | nil => simp at hne
    | cons piece before =>
      have hm := mem_pieces_of_steps h List.mem_cons_self
      exact isAbsolute_intercalate_cons (ne_empty_of_mem_pieces hm) (slash_notMem_of_mem_pieces hm)

end Text

end Path

end FileMesh
