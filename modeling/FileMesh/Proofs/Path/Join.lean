import FileMesh.ContentHash
import FileMesh.Proofs.Path

/-!
# Names in a directory

A path that is joined from a directory and a single name is the directory with one more part. Its
parent is the directory again, in its plain form: without the dots and separators that say nothing.
-/

namespace FileMesh

namespace Path

variable {path dir name : String}

/-- A text that is a single name: it leads neither to the directory itself nor to the one above, and
into no directory. -/
structure IsName (name : String) : Prop where
  ne_empty : name ≠ ""
  slash_notMem : '/' ∉ name.toList
  ne_dot : name ≠ "."
  ne_up : name ≠ ".."

/-- The path put together from its parts. -/
def plain (path : String) : String := ofComponents (components path)

theorem pieces_append_slash (a b : String) : pieces (a ++ "/" ++ b) = pieces a ++ pieces b := by
  have hlist : (a ++ "/" ++ b).toList = a.toList ++ '/' :: b.toList := by simp
  rw [pieces_eq, pieces_eq, pieces_eq, hlist, List.splitOn_append_cons_self, List.filter_append,
    List.map_append]

theorem exists_of_endsInSeparator (h : endsInSeparator path = true) : ∃ a, path = a ++ "/" := by
  rw [endsInSeparator, beq_iff_eq] at h
  obtain ⟨l, hl⟩ := List.getLast?_eq_some_iff.1 h
  refine ⟨.ofList l, ?_⟩
  rw [← String.toList_inj, hl]
  simp

namespace IsName

theorem isAbsolute (h : IsName name) : isAbsolute name = false := by
  rw [Path.isAbsolute]
  cases hl : name.toList with
  | nil => rfl
  | cons c l =>
    have hne : c ≠ '/' := by
      rintro rfl
      exact h.slash_notMem (hl ▸ List.mem_cons_self)
    simpa using hne

theorem pieces (h : IsName name) : pieces name = [name] := by
  have hp : Path.pieces ("/".intercalate [name]) = [name].filter (· ≠ "") :=
    pieces_intercalate (by simpa using h.slash_notMem)
  rw [String.intercalate_singleton] at hp
  rw [hp, List.filter_cons_of_pos (by simpa using h.ne_empty), List.filter_nil]

end IsName

/-! ## A name in a directory -/

theorem pieces_join (h : IsName name) : pieces (join dir name) = pieces dir ++ [name] := by
  rw [join, h.isAbsolute]
  by_cases hd : dir = ""
  · subst hd
    simp [h.pieces, show pieces "" = [] from rfl]
  · by_cases hs : endsInSeparator dir = true
    · obtain ⟨a, rfl⟩ := exists_of_endsInSeparator hs
      have ha := pieces_append_slash a ""
      rw [String.append_empty, show pieces "" = [] from rfl, List.append_nil] at ha
      simp only [Bool.false_eq_true, hd, or_self, if_false, hs, if_true]
      rw [pieces_append_slash, ha, h.pieces]
    · simp only [Bool.false_eq_true, hd, or_self, if_false, hs]
      rw [pieces_append_slash, h.pieces]

theorem isAbsolute_join (h : IsName name) : isAbsolute (join dir name) = isAbsolute dir := by
  have happend (hd : dir ≠ "") (s : String) : isAbsolute (dir ++ s) = isAbsolute dir := by
    rw [isAbsolute, isAbsolute, String.toList_append, List.head?_append]
    cases hl : dir.toList with
    | nil => exact absurd (String.toList_eq_nil_iff.1 hl) hd
    | cons c l => rfl
  rw [join, h.isAbsolute]
  by_cases hd : dir = ""
  · subst hd
    simp only [or_true, if_true]
    exact h.isAbsolute
  · simp only [Bool.false_eq_true, hd, or_self, if_false]
    split
    · exact happend hd name
    · rw [String.append_assoc, happend hd]

theorem components_join (h : IsName name) :
    components (join dir name) = components dir ++ [.name name] := by
  have hinner : inner? name = some (.name name) := by
    rw [inner?, if_neg h.ne_dot, if_neg h.ne_up]
  have hhead : (pieces dir ++ [name]).head? = some "." ↔ (pieces dir).head? = some "." := by
    cases pieces dir with
    | nil => simp [h.ne_dot]
    | cons piece l => simp
  simp only [components, isAbsolute_join h, pieces_join h, List.filterMap_append, hhead,
    List.filterMap_cons_some hinner, List.filterMap_nil]
  split
  · rfl
  · split <;> rfl

/-- The parent of a name in a directory is the directory. -/
theorem parent?_join (h : IsName name) : parent? (join dir name) = some (plain dir) := by
  rw [parent?, components_join h]
  split
  · rename_i hnil
    simp at hnil
  · rename_i hroot
    cases hc : components dir with
    | nil =>
      rw [hc] at hroot
      cases hroot
    | cons c l =>
      rw [hc] at hroot
      simp at hroot
  · rw [List.dropLast_concat, plain]

/-! ## The plain form of a path -/

theorem root_notMem_filterMap (l : List String) : Component.root ∉ l.filterMap inner? := by
  intro hm
  obtain ⟨piece, -, hi⟩ := List.mem_filterMap.1 hm
  rw [inner?] at hi
  split at hi
  · cases hi
  · split at hi <;> cases hi

/-- The plain form of a path has its steps and starts where it starts. -/
theorem plain_spec (path : String) :
    steps (plain path) = steps path ∧ isAbsolute (plain path) = isAbsolute path := by
  obtain ⟨pre, hpre, hcomponents⟩ := exists_prefix path
  have hsteps : ((pieces path).filterMap inner?).map Component.text = steps path :=
    map_text_filterMap _
  by_cases hroot : components path = [.root]
  · have hplain : plain path = "/" := by
      rw [plain, hroot]
      rfl
    rw [hroot] at hcomponents
    cases hpre with
    | root ha =>
      have hnil : (pieces path).filterMap inner? = [] := by simpa using hcomponents
      rw [hplain, ← hsteps, hnil, ha]
      exact ⟨rfl, rfl⟩
    | here => simp at hcomponents
    | nothing =>
      have hmem : Component.root ∈ (pieces path).filterMap inner? := by
        rw [List.nil_append] at hcomponents
        exact hcomponents ▸ List.mem_singleton_self _
      exact absurd hmem (root_notMem_filterMap _)
  · have hplain : plain path = "/".intercalate (pre.map Component.text ++ steps path) := by
      rw [plain, ← hsteps, ← List.map_append, ← hcomponents, ofComponents]
      exact fun he => hroot he
    have hsub : (steps path).Sublist (steps path) := .refl _
    constructor
    · have hself : (steps path).filter (· ≠ ".") = steps path := by
        rw [steps, List.filter_filter]
        simp
      rw [hplain, steps, pieces_text hpre hsub, List.filter_append, hself]
      cases hpre <;> rfl
    · by_cases hne : steps path ≠ [] ∨ pre = [.here]
      · rw [hplain, isAbsolute_text hpre hsub hne]
      · -- Nothing stands there at all: with the root alone it would be the case above.
        rw [not_or, not_not] at hne
        cases hpre with
        | root =>
          rw [← hsteps, List.map_eq_nil_iff] at hne
          rw [hne.1] at hcomponents
          exact absurd hcomponents hroot
        | here => exact absurd rfl hne.2
        | nothing ha =>
          rw [hplain, hne.1, ha]
          rfl

/-! ## Names -/

/-- The name a path ends in is a piece of it that does not lead up or stay. -/
theorem mem_pieces_of_fileName? (h : fileName? path = some name) :
    name ∈ Path.pieces path ∧ name ≠ "." ∧ name ≠ ".." := by
  rw [fileName?] at h
  split at h
  · rename_i s hlast
    cases h
    have hmem : Component.name name ∈ components path := List.mem_of_getLast? hlast
    obtain ⟨pre, hpre, hcomponents⟩ := exists_prefix path
    rw [hcomponents, List.mem_append, List.mem_filterMap] at hmem
    rcases hmem with hmem | ⟨piece, hp, hi⟩
    · cases hpre <;> simp at hmem
    · rw [inner?] at hi
      split at hi
      · cases hi
      · rename_i hdot
        split at hi
        · cases hi
        · rename_i hup
          cases hi
          exact ⟨hp, hdot, hup⟩
  · cases h

/-- The name a path ends in is a name. -/
theorem isName_fileName? (h : fileName? path = some name) : IsName name := by
  obtain ⟨hp, hdot, hup⟩ := mem_pieces_of_fileName? h
  exact ⟨ne_empty_of_mem_pieces hp, slash_notMem_of_mem_pieces hp, hdot, hup⟩

theorem hexDigit_notMem {n : Nat} (h : n < 16) : Bytes.hexDigit n ∉ ['/', '.'] := by
  have hall : ∀ n : Fin 16, Bytes.hexDigit n ∉ ['/', '.'] := by decide
  exact hall ⟨n, h⟩

/-- The text of a hash is a name. -/
theorem isName_hex (hash : ContentHash) : IsName hash.hex := by
  have hlist : hash.hex.toList = hash.bytes.flatMap fun x =>
      [Bytes.hexDigit (x.toNat / 16), Bytes.hexDigit (x.toNat % 16)] := String.toList_ofList
  have hdigit : ∀ c ∈ hash.hex.toList, c ∉ ['/', '.'] := by
    intro c hc
    rw [hlist, List.mem_flatMap] at hc
    obtain ⟨x, -, hx⟩ := hc
    have hlt := x.toNat_lt
    simp only [List.mem_cons, List.not_mem_nil, or_false] at hx
    rcases hx with rfl | rfl
    · exact hexDigit_notMem (by omega)
    · exact hexDigit_notMem (by omega)
  have hlength : hash.hex.toList.length = 32 := by
    rw [hlist, List.length_flatMap]
    simp only [List.length_cons, List.length_nil]
    rw [List.map_const', hash.length_bytes]
    rfl
  refine ⟨?_, fun hm => hdigit _ hm (by simp), ?_, ?_⟩
  · rintro he
    simp [he] at hlength
  · rintro he
    simp [he] at hlength
  · rintro he
    simp [he] at hlength

end Path

end FileMesh
