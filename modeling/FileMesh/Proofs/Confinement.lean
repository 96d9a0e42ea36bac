import FileMesh.Proofs.Lodging

/-!
# Peers' names stay in the directory

A peer declares a file under any text. Of this text only the last name is used, or the hash if
there is none, so the path of a peer's entry is the directory in which the store makes files with
one more part, a single name. Whatever is done with peers' entries, files are made right inside this
directory, and a file that has no name there is left alone.
-/

namespace FileMesh

/-! ## The last name in a path -/

namespace Path

variable {c : Component} {l : List String}

theorem eq_up_or_name_of_mem (h : c ∈ l.filterMap inner?) :
    c = .up ∨ ∃ s, s ≠ ".." ∧ c = .name s := by
  obtain ⟨piece, -, hi⟩ := List.mem_filterMap.1 h
  rw [inner?] at hi
  split at hi
  · cases hi
  · split at hi
    · cases hi
      exact .inl rfl
    · rename_i hup
      cases hi
      exact .inr ⟨piece, hup, rfl⟩

/-- The name a path ends in is its last step, unless that leads up. Dots and separators at the end
say nothing. -/
theorem fileName?_eq (path : String) :
    fileName? path = (steps path).getLast?.filter (· ≠ "..") := by
  obtain ⟨pre, hpre, hcomponents⟩ := exists_prefix path
  have hsteps : ((pieces path).filterMap inner?).map Component.text = steps path :=
    map_text_filterMap _
  rw [fileName?, hcomponents, ← hsteps]
  rcases List.eq_nil_or_concat ((pieces path).filterMap inner?) with hnil | ⟨parts, c, hparts⟩
  · -- What stands before the steps is no name.
    rw [hnil, List.append_nil]
    cases hpre <;> rfl
  · rw [List.concat_eq_append] at hparts
    have hmem : c ∈ (pieces path).filterMap inner? :=
      hparts ▸ List.mem_append_right parts (List.mem_singleton_self c)
    rw [hparts, ← List.append_assoc, List.getLast?_concat, List.map_append, List.map_singleton,
      List.getLast?_concat]
    rcases eq_up_or_name_of_mem hmem with rfl | ⟨s, hs, rfl⟩
    · rfl
    · exact (Option.filter_some_pos (by simpa using hs)).symm

end Path

/-! ## Changes in a directory -/

namespace Disk

variable {dir name : String} {q : Place} {d d' d'' : Disk}

/-- Files are made right inside a directory only, and a file that has no name there stays as it is.
Nothing is taken away. -/
structure Confined (dir : String) (d d' : Disk) : Prop where
  le : d.Le d'
  made : ∀ {p id}, d'.kind? p = some (.file id) → d.kind? p = some (.file id) ∨
    ∃ name, Path.IsName name ∧ p = name :: d.site dir
  file : ∀ {id}, (∀ name, d'.kind? (name :: d.site dir) ≠ some (.file id)) →
    d'.file id = d.file id

namespace Confined

theorem refl (dir : String) (d : Disk) : Confined dir d d :=
  ⟨.refl d, fun hk => .inl hk, fun _ => rfl⟩

theorem trans (h : Confined dir d d') (h' : Confined dir d' d'') : Confined dir d d'' where
  le := h.le.trans h'.le
  made hk := by
    rcases h'.made hk with hk | hplace
    · exact h.made hk
    · rw [h.le.site] at hplace
      exact .inr hplace
  file hno := by
    have hno' : ∀ name, d'.kind? (name :: d.site dir) ≠ _ :=
      fun name hk => hno name (h'.le.kind? hk)
    rw [← h.le.site dir] at hno
    rw [h'.file hno, h.file hno']

end Confined

/-- A change at the place of a name in the directory. -/
theorem Touch.confined (h : Touch dir q d d') (hn : Path.IsName name)
    (hq : q = name :: d.site dir) : Confined dir d d' where
  le := h.le
  made := by
    intro p id hk
    cases h with
    | prepare => exact .inl ((d.makeDirectories_spec _).1.file hk)
    | create _ hnone _ =>
      rw [kind?_create d (ne_nil_of_kind?_eq_none hnone)] at hk
      split at hk
      · rename_i hp
        exact .inr ⟨name, hn, hp.trans hq⟩
      · exact .inl hk
    | change _ f => exact .inl hk
  file := by
    intro id hno
    cases h with
    | prepare => exact (d.makeDirectories_spec _).1.file_eq id
    | create => exact file_create d q id
    | change hk f =>
      refine file_setFile_of_ne d ?_ f
      rintro rfl
      exact hno name (hq ▸ hk)

theorem confined_of_touches (hn : Path.IsName name) (hq : q = name :: d.site dir)
    (h : Relation.ReflTransGen (Touch dir q) d d') : Confined dir d d' := by
  induction h with
  | refl => exact .refl dir d
  | tail _ ht ih => exact ih.trans (ht.confined hn (ih.le.site dir ▸ hq))

end Disk

/-- Using an entry that has its place in the directory. -/
theorem Entry.Uses.confined {dir name : String} {d d' : Disk} {e e' : Entry}
    (h : Entry.Uses dir d e d' e') (hn : Path.IsName name)
    (hp : e.backingPath = Path.join dir name) : Disk.Confined dir d d' :=
  Disk.confined_of_touches hn (hp ▸ Disk.site_join hn) h.touches

/-! ## What happens to a store -/

namespace Store

variable {dir : String} {s : Store} {disk : Disk} {e : Entry} {hash : ContentHash}
  {σ : Store × Disk} {ev : Event}

/-- What can happen to a store: the descriptor of a peer or an entry of a file of this host is
added, a file of this host is shared, or the entry with a hash is used, if it has this origin. -/
inductive Event where
  | add (d : Descriptor)
  | addFile (d : Descriptor) (path : String)
  | share (path name : String)
  | use (origin : Origin) (hash : ContentHash) (u : Entry.Use)

/-- The store and the disk afterwards. A file of this host has to be there when it is added. -/
def step (σ : Store × Disk) : Event → Store × Disk
  | .add d =>
    match σ.1.add d with
    | .ok t => (t, σ.2)
    | .error _ => σ
  | .addFile d path =>
    match σ.2.openToRead path, σ.1.addFile d path with
    | .ok (.file _), .ok t => (t, σ.2)
    | _, _ => σ
  | .share path name =>
    match σ.1.share σ.2 path name with
    | .ok (_, t) => (t, σ.2)
    | .error _ => σ
  | .use origin hash u =>
    match σ.1.lookup hash with
    | some e =>
      if e.origin = origin then (σ.1.modify hash fun _ => (e.use σ.2 u).1, (e.use σ.2 u).2) else σ
    | none => σ

/-- The store and the disk after a run, from a store without entries that makes files in `dir`. -/
def after (dir : String) (disk : Disk) (events : List Event) : Store × Disk :=
  events.foldl step (.empty dir, disk)

/-- No entry of a file of this host is used. -/
def Event.SparesHost (ev : Event) : Prop := ∀ hash u, ev ≠ .use .host hash u

theorem after_append (disk : Disk) (events more : List Event) :
    after dir disk (events ++ more) = more.foldl step (after dir disk events) :=
  List.foldl_append

/-- Whatever happens, every entry has its file or waits for it. -/
theorem lodged_step (h : Lodged dir σ.1 σ.2) (ev : Event) :
    Lodged dir (step σ ev).1 (step σ ev).2 := by
  cases ev with
  | add d =>
    rw [step]
    split
    · rename_i ha
      exact h.add ha
    · exact h
  | addFile d path =>
    rw [step]
    split
    · rename_i ho ha
      exact h.addFile ho ha
    · exact h
  | share path name =>
    rw [step]
    split
    · rename_i hs
      exact h.share hs
    · exact h
  | use origin hash u =>
    rw [step]
    split
    · rename_i hl
      split
      · exact h.use hl u
      · exact h
    · exact h

theorem lodged_after (hd : disk.WellFormed) (events : List Event) :
    Lodged dir (after dir disk events).1 (after dir disk events).2 := by
  induction events using List.reverseRecOn with
  | nil => exact .start hd dir
  | append_singleton events ev ih =>
    rw [after_append]
    exact lodged_step ih ev

/-- A step that uses no entry of a file of this host changes the disk in the directory only. -/
theorem confined_step (h : Lodged dir σ.1 σ.2) (hev : ev.SparesHost) :
    Disk.Confined dir σ.2 (step σ ev).2 := by
  cases ev with
  | add d =>
    rw [step]
    split <;> exact .refl dir σ.2
  | addFile d path =>
    rw [step]
    split <;> exact .refl dir σ.2
  | share path name =>
    rw [step]
    split <;> exact .refl dir σ.2
  | use origin hash u =>
    rw [step]
    split
    · rename_i e hl
      split
      · rename_i horigin
        have hnetwork : e.origin = .network := by
          cases origin with
          | host => exact absurd rfl (hev hash u)
          | network => exact horigin
        exact ((h.sited hl).uses_of_wellFormed h.wellFormed u).confined (Path.isName_fileName _)
          (h.named hl hnetwork)
      · exact .refl dir σ.2
    · exact .refl dir σ.2

theorem confined_run (h : Lodged dir σ.1 σ.2) {events : List Event}
    (hevents : ∀ ev ∈ events, ev.SparesHost) :
    Disk.Confined dir σ.2 (events.foldl step σ).2 := by
  induction events generalizing σ with
  | nil => exact .refl dir σ.2
  | cons ev events ih =>
    have hfirst := confined_step h (hevents ev List.mem_cons_self)
    have hrest := ih (lodged_step h ev) fun ev' hm => hevents ev' (List.mem_cons_of_mem _ hm)
    exact hfirst.trans hrest

/-- A peer's entry has the path in the directory or none yet, and what it has mapped is there. -/
theorem Lodged.path_eq (h : Lodged dir s disk) (hl : s.lookup hash = some e)
    (hnetwork : e.origin = .network) :
    (e.path = none ∨ e.path = some (Path.join dir (fileName e.descriptor))) ∧
      ∀ id, e.mapping = some id →
        disk.kind? (fileName e.descriptor :: disk.site dir) = some (.file id) := by
  have hpath := h.named hl hnetwork
  have hsited := h.sited hl
  constructor
  · rw [← hpath]
    cases hsited with
    | bound _ hp _ _ => exact .inr hp
    | waiting _ _ _ hp _ => exact hp.imp_right And.left
  · intro id hm
    rw [← Disk.site_join (Path.isName_fileName e.descriptor), ← hpath]
    exact hsited.kind?_site hm

/-- A store that makes files in `dir` keeps what peers declare in that directory. The last step of a
declared name is used if it does not lead up, and otherwise the hash. This is a single name, so
joined to the directory it is one more part. An entry of a peer has this path or none yet, and what
it has mapped is the file right inside the directory. While no entry of a file of this host is used,
nothing happens outside the directory. -/
structure Confines (dir : String) (disk : Disk) : Prop where
  fileName_eq : ∀ d, fileName d =
    ((Path.steps d.name).getLast?.filter (· ≠ "..")).getD d.hash.hex
  isName : ∀ d, Path.IsName (fileName d)
  components_join : ∀ d, Path.components (Path.join dir (fileName d)) =
    Path.components dir ++ [.name (fileName d)]
  path : ∀ events hash e, (after dir disk events).1.lookup hash = some e → e.origin = .network →
    e.path = none ∨ e.path = some (Path.join dir (fileName e.descriptor))
  mapping : ∀ events hash e id, (after dir disk events).1.lookup hash = some e →
    e.origin = .network → e.mapping = some id → (after dir disk events).2.kind?
      (fileName e.descriptor :: (after dir disk events).2.site dir) = some (.file id)
  confined : ∀ events more, (∀ ev ∈ more, ev.SparesHost) →
    Disk.Confined dir (after dir disk events).2 (after dir disk (events ++ more)).2

/-- Whatever names peers declare and whatever is done with their entries, files are made and changed
in the directory only. -/
theorem confines (hd : disk.WellFormed) (dir : String) : Confines dir disk where
  fileName_eq d := by rw [fileName, Path.fileName?_eq]
  isName := Path.isName_fileName
  components_join d := Path.components_join (Path.isName_fileName d)
  path events hash e hl hnetwork := ((lodged_after hd events).path_eq hl hnetwork).1
  mapping events hash e id hl hnetwork hm := ((lodged_after hd events).path_eq hl hnetwork).2 id hm
  confined events more hmore := by
    rw [after_append]
    exact confined_run (lodged_after hd events) hmore

/-- A descriptor under a name. -/
def declaredAs (name : String) (hash : UInt8) : Descriptor :=
  ⟨name, .ofBytes [hash], .replicate chunkCount .zero, 512⟩

/-- Two peers' files are opened that are declared under names that lead out of the directory. -/
def hostileEvents : List Event :=
  [.add (declaredAs "../../etc/passwd" 1), .add (declaredAs "/etc/.." 2),
    .use .network (.ofBytes [1]) (.openChunk 0), .use .network (.ofBytes [2]) (.openChunk 0)]

/-- The first one is made under the last name in its path, the second one under the hash, both of
them in the directory. -/
theorem confines_hostile : Disk.empty.WellFormed ∧
    Disk.Confined "dl" .empty (after "dl" .empty hostileEvents).2 ∧
    ((after "dl" .empty hostileEvents).1.lookup (.ofBytes [1])).map Entry.path =
      some (some "dl/passwd") ∧
    ((after "dl" .empty hostileEvents).1.lookup (.ofBytes [2])).map Entry.path =
      some (some ("dl/" ++ (ContentHash.ofBytes [2]).hex)) ∧
    (after "dl" .empty hostileEvents).2.kind? ["passwd", "dl", "work"] = some (.file 0) := by
  refine ⟨Disk.wellFormed_empty, ?_, by decide +kernel, by decide +kernel, by decide +kernel⟩
  refine (confines Disk.wellFormed_empty "dl").confined [] hostileEvents fun ev hm hash u => ?_
  simp only [hostileEvents, List.mem_cons, List.not_mem_nil, or_false] at hm
  rcases hm with rfl | rfl | rfl | rfl <;> intro he <;> cases he

end Store

end FileMesh
