import FileMesh.Proofs.Disk.Parent

/-!
# What making directories leaves behind

Directories are made from the outside in, as far as they can be, and those that were made stay when
a later one fails. So an attempt changes nothing just when no directory around the path can be made:
because they are all there, because something is in the way, or because the path is refused at once.
-/

namespace FileMesh

/-! ## The paths around a path -/

namespace Path

variable {path parent p : String}

/-- The path itself and the paths of the directories around it. -/
inductive Around : String → String → Prop where
  | self (path : String) : Around path path
  | parent {path parent p : String} (hp : (parent? path).filter (· ≠ "") = some parent)
      (h : Around parent p) : Around path p

/-- What is around a path is the path itself or around the one without its last part. -/
theorem forall_around_iff {P : String → Prop} : (∀ p, Around path p → P p) ↔ P path ∧
    ∀ parent, (parent? path).filter (· ≠ "") = some parent → ∀ p, Around parent p → P p := by
  constructor
  · exact fun h => ⟨h _ (.self path), fun parent hp p hpar => h p (.parent hp hpar)⟩
  · rintro ⟨hself, hparent⟩ p hp
    cases hp with
    | self => exact hself
    | parent hp h => exact hparent _ hp p h

/-- The path without its last part has one step less, unless it is the root. -/
theorem exists_steps_of_parent? (h : (parent? path).filter (· ≠ "") = some parent) :
    parent = "/" ∨ ∃ last, steps path = steps parent ++ [last] ∧
      isAbsolute parent = isAbsolute path ∧ parent.toList.Sublist path.toList := by
  obtain ⟨before, last, pre, hsteps, hpre, hroot | ⟨hbefore, htext⟩⟩ := exists_of_parent? h
  · exact .inl hroot
  · have hsub : before.Sublist (steps path) := hsteps ▸ List.sublist_append_left before [last]
    have hdot : before.filter (· ≠ ".") = before := by
      refine List.filter_eq_self.2 fun piece hm => ?_
      exact (List.mem_filter.1 (hsub.subset hm)).2
    have hparent : steps parent = before := by
      rw [steps, htext, pieces_text hpre hsub, List.filter_append, hdot]
      cases hpre <;> rfl
    refine .inr ⟨last, by rw [hparent, hsteps], ?_, ?_⟩
    · rw [htext, isAbsolute_text hpre hsub hbefore]
    · rw [htext]
      exact text_sublist hpre hsub

theorem length_steps_of_parent? (h : (parent? path).filter (· ≠ "") = some parent) :
    (steps parent).length < (steps path).length := by
  obtain ⟨before, last, -, hsteps, -⟩ := exists_of_parent? h
  rcases exists_steps_of_parent? h with rfl | ⟨last, hlast, -⟩
  · rw [hsteps, List.length_append]
    exact Nat.succ_pos _
  · rw [hlast, List.length_append]
    exact Nat.lt_succ_self _

theorem length_le_length_intercalate {parts : List (List Char)} (h : ∀ part ∈ parts, part ≠ []) :
    parts.length ≤ (['/'].intercalate parts).length := by
  induction parts with
  | nil => exact Nat.zero_le _
  | cons part parts ih =>
    have hpos := List.length_pos_iff.2 (h part List.mem_cons_self)
    have ih := ih fun part hm => h part (List.mem_cons_of_mem _ hm)
    cases parts with
    | nil => rwa [List.intercalate_singleton]
    | cons next parts =>
      rw [List.intercalate_cons_cons, List.length_append, List.length_append, List.length_cons]
      omega

/-- A path has no more steps than characters. -/
theorem length_steps_le (path : String) : (steps path).length ≤ path.length := by
  have hne : ∀ part ∈ (pieces path).map String.toList, part ≠ [] := by
    intro part hm
    obtain ⟨piece, hpiece, rfl⟩ := List.mem_map.1 hm
    rw [Ne, String.toList_eq_nil_iff]
    exact ne_empty_of_mem_pieces hpiece
  have hsub := Text.intercalate_sublist ['/'] (pieces_sublist path)
  rw [List.intercalate_splitOn] at hsub
  calc (steps path).length
    _ ≤ (pieces path).length := (steps_sublist path).length_le
    _ = ((pieces path).map String.toList).length := List.length_map _ |>.symm
    _ ≤ _ := length_le_length_intercalate hne
    _ ≤ path.toList.length := hsub.length_le
    _ = path.length := String.length_toList

end Path

/-! ## Paths that lead nowhere -/

namespace Disk

variable {d d' d'' : Disk} {p q : Place} {path parent name : String} {names : List String}

/-- Following a path ended where nothing stands, or before. -/
def Lost (d : Disk) (result : Except IoError Place) : Prop :=
  result = .error .notFound ∨ ∃ place, result = .ok place ∧ d.kind? place = none

theorem enter_of_none (h : d.kind? p = none) (name : String) :
    d.enter p name = .error .notFound := by
  rw [enter, h]

theorem follow_cons (d : Disk) (p : Place) (name : String) (names : List String) :
    d.follow p (name :: names) = d.enter p name >>= fun q => d.follow q names := rfl

theorem lost_follow_of_none (h : d.kind? p = none) (names : List String) :
    d.Lost (d.follow p names) := by
  cases names with
  | nil => exact .inr ⟨p, rfl, h⟩
  | cons name names =>
    rw [follow_cons, enter_of_none h]
    exact .inl rfl

theorem not_lost_follow_of_file {id : FileId} (h : d.kind? p = some (.file id))
    (names : List String) : ¬ d.Lost (d.follow p names) := by
  cases names with
  | nil =>
    rintro (hl | ⟨place, hl, hk⟩)
    · cases hl
    · cases hl
      rw [h] at hk
      cases hk
  | cons name names =>
    have he : d.enter p name = .error .notDirectory := by rw [enter, h]
    rw [follow_cons, he]
    rintro (hl | ⟨place, hl, -⟩) <;> cases hl

/-- Dots on the way make no difference. -/
theorem lost_follow_filter :
    d.Lost (d.follow p (names.filter (· ≠ "."))) ↔ d.Lost (d.follow p names) := by
  induction names generalizing p with
  | nil => exact Iff.rfl
  | cons name names ih =>
    by_cases hdot : name = "."
    · subst hdot
      rw [List.filter_cons_of_neg (by simp), follow_cons]
      cases hk : d.kind? p with
      | none =>
        refine iff_of_true (lost_follow_of_none hk _) ?_
        rw [enter_of_none hk]
        exact .inl rfl
      | some kind =>
        cases kind with
        | file id =>
          exact iff_of_false (not_lost_follow_of_file hk _)
            (not_lost_follow_of_file hk ("." :: names))
        | directory =>
          have he : d.enter p "." = .ok p := enter_eq_ok_iff.2 ⟨hk, .inl ⟨rfl, rfl⟩⟩
          rw [he]
          exact ih
    · rw [List.filter_cons_of_pos (by simpa using hdot), follow_cons, follow_cons]
      cases d.enter p name with
      | error cause => exact Iff.rfl
      | ok q => exact ih

theorem Lost.follow_concat (h : d.Lost (d.follow p names)) (last : String) :
    d.follow p (names ++ [last]) = .error .notFound := by
  induction names generalizing p with
  | nil =>
    obtain h | ⟨place, h, hk⟩ := h
    · cases h
    · cases h
      rw [List.nil_append, follow_cons, enter_of_none hk]
      rfl
  | cons name names ih =>
    rw [follow_cons] at h
    rw [List.cons_append, follow_cons]
    cases he : d.enter p name with
    | error cause =>
      rw [he] at h
      obtain h | ⟨place, h, -⟩ := h
      · cases h
        rfl
      · cases h
    | ok q =>
      rw [he] at h
      exact ih h

theorem checkPath_of_parent? (hp : (Path.parent? path).filter (· ≠ "") = some parent)
    (hc : checkPath path = .ok ()) : checkPath parent = .ok () := by
  have hne : parent ≠ "" := by simpa using (Option.filter_eq_some_iff.1 hp).2
  rcases Path.exists_steps_of_parent? hp with rfl | ⟨last, -, -, hsub⟩
  · decide
  · exact checkPath_of_sublist hc hsub hne

/-- A path through a directory that is missing leads nowhere. -/
theorem target_of_lost (hp : (Path.parent? path).filter (· ≠ "") = some parent)
    (hc : checkPath path = .ok ()) (h : d.Lost (d.target parent)) :
    d.target path = .error .notFound := by
  have hc' := checkPath_of_parent? hp hc
  rcases Path.exists_steps_of_parent? hp with rfl | ⟨last, hsteps, habsolute, -⟩
  · -- The root is always there.
    obtain ⟨place, ht, hk⟩ := isDirectory_iff.1 (isDirectory_root d)
    rw [ht] at h
    obtain h | ⟨place', h, hk'⟩ := h
    · cases h
    · cases h
      rw [hk] at hk'
      cases hk'
  · have hstart : d.start parent = d.start path := by rw [start, start, habsolute]
    have htarget {path : String} (hc : checkPath path = .ok ()) :
        d.target path = d.follow (d.start path) (Path.pieces path) := by
      rw [target, hc]
      rfl
    rw [htarget hc', hstart, ← lost_follow_filter] at h
    have hnowhere := Lost.follow_concat h last
    have hlost : d.Lost (d.follow (d.start path) (Path.pieces path)) := by
      rw [← lost_follow_filter]
      change d.Lost (d.follow (d.start path) (Path.steps path))
      rw [hsteps]
      exact .inl hnowhere
    rw [htarget hc]
    obtain hlost | ⟨place, hlost, -⟩ := hlost
    · exact hlost
    · have hfiltered := follow_filter hlost
      rw [← Path.steps, hsteps, Path.steps, hnowhere] at hfiltered
      cases hfiltered

theorem makeDirectory_of_notFound (h : d.target path = .error .notFound) :
    d.makeDirectory path = .error .notFound := by
  rw [makeDirectory, h]
  rfl

theorem lost_of_makeDirectory (h : d.makeDirectory path = .ok d') : d.Lost (d.target path) := by
  obtain ⟨place, ht, -, hk, -⟩ := makeDirectory_eq_ok_iff.1 h
  exact .inr ⟨place, ht, hk⟩

/-- If a directory around a path can be made, the path leads nowhere yet. -/
theorem lost_of_around (hc : checkPath path = .ok ()) (ha : Path.Around path name)
    (h : d.makeDirectory name = .ok d') : d.Lost (d.target path) := by
  induction ha with
  | self path => exact lost_of_makeDirectory h
  | parent hp _ ih => exact .inl (target_of_lost hp hc (ih (checkPath_of_parent? hp hc) h))

/-! ## What is made -/

/-- Nothing has changed, or something stands where nothing stood. -/
structure Adds (d d' : Disk) : Prop where
  le : d.Le d'
  eq_or : d' = d ∨ ∃ place, d.kind? place = none ∧ d'.kind? place ≠ none

theorem Adds.refl (d : Disk) : d.Adds d := ⟨.refl d, .inl rfl⟩

theorem Adds.trans (h : d.Adds d') (h' : d'.Adds d'') : d.Adds d'' where
  le := h.le.trans h'.le
  eq_or := by
    rcases h.eq_or with rfl | ⟨place, hnone, hsome⟩
    · exact h'.eq_or
    · obtain ⟨kind, hkind⟩ := Option.ne_none_iff_exists'.1 hsome
      refine .inr ⟨place, hnone, ?_⟩
      rw [h'.le.kind? hkind]
      simp

theorem adds_link (h : d.kind? p = none) (kind : NodeKind) : d.Adds (d.link p kind) where
  le := le_link h kind
  eq_or := by
    refine .inr ⟨p, h, ?_⟩
    rw [kind?_link d (ne_nil_of_kind?_eq_none h), if_pos rfl]
    simp

/-- A disk that shows the same tree afterwards was left alone all the way. -/
theorem Adds.eq_of_le (h : d.Adds d') (hle : d'.Le d'')
    (hsame : ∀ place, d''.kind? place = d.kind? place) : d' = d := by
  rcases h.eq_or with heq | ⟨place, hnone, hsome⟩
  · exact heq
  · obtain ⟨kind, hkind⟩ := Option.ne_none_iff_exists'.1 hsome
    have hlater := hle.kind? hkind
    rw [hsame, hnone] at hlater
    cases hlater

theorem adds_makeDirectory (h : d.makeDirectory path = .ok d') : d.Adds d' ∧ d' ≠ d := by
  obtain ⟨place, -, -, hk, rfl⟩ := makeDirectory_eq_ok_iff.1 h
  refine ⟨adds_link hk _, fun he => ?_⟩
  have hkind := kind?_link d (ne_nil_of_kind?_eq_none hk) .directory place
  rw [he, if_pos rfl, hk] at hkind
  cases hkind

theorem adds_makeDirectories_finish (d : Disk) (path : String) :
    d.Adds (makeDirectories.finish d path).2 := by
  rw [makeDirectories.finish]
  cases hm : d.makeDirectory path with
  | ok d' => exact (adds_makeDirectory hm).1
  | error cause =>
    dsimp only
    split <;> exact .refl d

theorem adds_makeDirectories_go (n : Nat) (d : Disk) (path : String) :
    d.Adds (makeDirectories.go n d path).2 := by
  induction n generalizing d path with
  | zero => exact .refl d
  | succ n ih =>
    rw [makeDirectories.go]
    split
    · exact .refl d
    · split
      · rename_i hm
        exact (adds_makeDirectory hm).1
      · split
        · exact .refl d
        · rename_i parent _
          have hparent := ih d parent
          split
          · rename_i hgo
            rw [hgo] at hparent
            exact hparent
          · rename_i d' hgo
            rw [hgo] at hparent
            exact hparent.trans (adds_makeDirectories_finish d' path)
      · split <;> exact .refl d

/-- An attempt that fails for another reason than that a directory is missing is the only one. -/
theorem makeDirectories_go_of_ne_notFound {cause : IoError}
    (hm : d.makeDirectory path = .error cause) (hne : cause ≠ .notFound) (n : Nat) : (makeDirectories.go (n + 1) d path).2 = d := by
  rw [makeDirectories.go]
  split
  · rfl
  · rw [hm]
    cases cause <;> first
      | exact absurd rfl hne
      | (dsimp only; split <;> rfl)

/-- An attempt that fails because a directory is missing changes nothing if making that directory
changes nothing. -/
theorem makeDirectories_go_of_notFound (hm : d.makeDirectory path = .error .notFound)
    (hne : path ≠ "") (n : Nat) : (makeDirectories.go (n + 1) d path).2 = d ↔
      ∀ parent, Path.parent? path = some parent → (makeDirectories.go n d parent).2 = d := by
  rw [makeDirectories.go, if_neg hne, hm]
  cases Path.parent? path with
  | none => exact iff_of_true rfl fun parent hp => by cases hp
  | some parent =>
    simp only [Option.some.injEq, forall_eq']
    have hadds := adds_makeDirectories_go n d parent
    obtain ⟨⟨made, d₁⟩, hgo⟩ : ∃ r, makeDirectories.go n d parent = r := ⟨_, rfl⟩
    rw [hgo] at hadds ⊢
    cases made with
    | error cause => exact Iff.rfl
    | ok _ =>
      dsimp only at hadds ⊢
      constructor
      · intro hsame
        exact hadds.eq_of_le (adds_makeDirectories_finish d₁ path).le fun place => by rw [hsame]
      · rintro rfl
        rw [makeDirectories.finish, hm]
        dsimp only
        split <;> rfl

/-- Making directories changes nothing just when none of the directories around can be made. -/
theorem makeDirectories_go_snd_eq_iff {n : Nat} (hn : (Path.steps path).length < n)
    (hc : checkPath path = .ok ()) : (makeDirectories.go n d path).2 = d ↔
      ∀ name, Path.Around path name → ∀ d', d.makeDirectory name ≠ .ok d' := by
  -- The recursion goes up the path, as `Path.Around` does.
  induction n generalizing path with
  | zero => exact absurd hn (Nat.not_lt_zero _)
  | succ n ih =>
    have hne : path ≠ "" := (checkPath_eq_ok_iff.1 hc).2.1
    rw [Path.forall_around_iff]
    cases hm : d.makeDirectory path with
    | ok d' =>
      refine iff_of_false ?_ fun h => h.1 d' rfl
      rw [makeDirectories.go, if_neg hne, hm]
      exact (adds_makeDirectory hm).2
    | error cause =>
      rw [and_iff_right fun d' h => by cases h]
      by_cases hmissing : cause = .notFound
      · subst hmissing
        rw [makeDirectories_go_of_notFound hm hne]
        constructor
        · intro h parent hp
          obtain ⟨hparent, -⟩ := Option.filter_eq_some_iff.1 hp
          have hlt := Path.length_steps_of_parent? hp
          exact (ih (by omega) (checkPath_of_parent? hp hc)).1 (h parent hparent)
        · intro h parent hparent
          by_cases hempty : parent = ""
          · subst hempty
            cases n <;> rfl
          · have hp : (Path.parent? path).filter (· ≠ "") = some parent := by
              rw [hparent]
              simpa using hempty
            have hlt := Path.length_steps_of_parent? hp
            exact (ih (by omega) (checkPath_of_parent? hp hc)).2 (h parent hp)
      · refine iff_of_true (makeDirectories_go_of_ne_notFound hm hmissing n)
          fun parent hp name ha d' hmake => ?_
        have hlost := lost_of_around (checkPath_of_parent? hp hc) ha hmake
        rw [makeDirectory_of_notFound (target_of_lost hp hc hlost)] at hm
        cases hm
        exact hmissing rfl

/-- Making directories changes nothing just when none of the directories around can be made. A path
that is refused at once changes nothing either. -/
theorem makeDirectories_snd_eq_iff : (d.makeDirectories path).2 = d ↔
    (checkPath path = .ok () →
      ∀ name, Path.Around path name → ∀ d', d.makeDirectory name ≠ .ok d') := by
  cases hc : checkPath path with
  | ok _ =>
    rw [imp_iff_right rfl]
    exact makeDirectories_go_snd_eq_iff (Nat.lt_succ_of_le (Path.length_steps_le path)) hc
  | error cause =>
    refine iff_of_true ?_ fun h => by cases h
    by_cases hempty : path = ""
    · subst hempty
      rfl
    · have hm : d.makeDirectory path = .error cause := by
        rw [makeDirectory, target, hc]
        rfl
      refine makeDirectories_go_of_ne_notFound hm ?_ path.length
      rintro rfl
      simp only [checkPath, hempty, if_false] at hc
      split at hc
      · cases hc
      · split at hc <;> cases hc

theorem adds_makeDirectories (d : Disk) (path : String) : d.Adds (d.makeDirectories path).2 :=
  adds_makeDirectories_go _ d path

end Disk

end FileMesh
