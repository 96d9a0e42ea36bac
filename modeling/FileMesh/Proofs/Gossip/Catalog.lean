import FileMesh.Proofs.Gossip.Mesh
import FileMesh.Proofs.Path.Join
import FileMesh.Proofs.Peer.Sending
import FileMesh.Proofs.Sharing
import FileMesh.Proofs.Wire.Decoded

/-!
# Catalogs that are clean

Three places guard what a node passes on: the store refuses the zero hash and a name that does not
fit, a payload is read up to the first NUL of its name field, and no path that can be opened has a
NUL in it. Together they keep everything in a store fit for the wire, whatever files are shared and
whatever peers send. So a peer that is told the catalog is told all of it, and one that listens with
an empty store ends up with the same catalog.
-/

namespace FileMesh

/-! ## Clean stores -/

namespace Store

variable {s t : Store} {e : Entry}

/-- Everything in the store fits on the wire, and no name has a NUL, where a reader would stop. -/
structure Clean (s : Store) : Prop extends s.Fit where
  nul_notMem : ∀ d ∈ s.descriptors, '\x00' ∉ d.name.toList

theorem clean_empty (downloadDir : String) : (empty downloadDir).Clean :=
  ⟨fit_empty downloadDir, by simp [descriptors_empty]⟩

theorem contains_empty (downloadDir : String) (hash : ContentHash) :
    (empty downloadDir).contains hash = false := by
  rw [← Bool.not_eq_true, (fit_empty downloadDir).contains_iff, descriptors_empty]
  exact List.not_mem_nil

/-- A store that accepts an entry stays clean if the name of the entry has no NUL. -/
theorem Clean.insert (h : s.Clean) (hi : s.insert e = .ok t)
    (h0 : '\x00' ∉ e.descriptor.name.toList) : t.Clean := by
  refine ⟨h.toFit.insert hi, ?_⟩
  intro d hd
  rcases List.mem_cons.1 ((h.valid.perm_descriptors hi).mem_iff.1 hd) with rfl | hd
  · exact h0
  · exact h.nul_notMem d hd

theorem Clean.wellFormed (h : s.Clean) : ∀ d ∈ s.descriptors, (Message.fileDef d).WellFormed :=
  fun d hd => ⟨h.nameLength_le d hd, h.nul_notMem d hd⟩

end Store

/-! ## Names of files that can be opened -/

/-- No path that can be opened has a NUL. -/
theorem Disk.nul_notMem_of_openToRead {disk : Disk} {path : String} {kind : NodeKind}
    (h : disk.openToRead path = .ok kind) : '\x00' ∉ path.toList := by
  intro h0
  have hcheck : checkPath path = .error .nulInName := by
    rw [checkPath, if_pos (List.contains_iff_mem.2 h0)]
  rw [openToRead, resolve, target, hcheck] at h
  cases h

/-- A description has the name it was asked for. -/
theorem Store.name_of_describe {s : Store} {disk : Disk} {kind : NodeKind} {name : String}
    {d : Descriptor} (h : s.describe disk kind name = .ok d) : d.name = name := by
  rw [describe] at h
  dsimp only at h
  split at h
  · cases h
  · obtain ⟨hash, -, h⟩ := Except.bind_eq_ok_iff.1 h
    split at h
    · cases h
    · obtain ⟨chunkHashes, -, h⟩ := Except.bind_eq_ok_iff.1 h
      cases h
      rfl

/-- A file is shared under a name without a NUL. -/
theorem Store.nul_notMem_of_share {s t : Store} {disk : Disk} {path name : String} {d : Descriptor}
    (hname : Path.fileName? path = some name) (h : s.share disk path name = .ok (d, t)) :
    '\x00' ∉ d.name.toList := by
  obtain ⟨id, hopen, -⟩ := exists_openToRead_of_share h
  obtain ⟨-, hdescribe, -⟩ := (share_eq_ok_iff hopen).1 h
  rw [name_of_describe hdescribe]
  intro h0
  have hpiece := (Path.mem_pieces_of_fileName? hname).1
  exact Disk.nul_notMem_of_openToRead hopen
    ((Path.toList_sublist_of_mem_pieces hpiece).subset h0)

/-! ## What a node learns -/

namespace Node

variable {n : Node} {d : Descriptor}

/-- What can add to the store of a node: the file at a path is to be shared, or a peer sent a
payload as a descriptor. -/
inductive Lesson where
  | share (disk : Disk) (path : String)
  | payload (payload : Bytes) (source : PeerId)

/-- Handles a message if it is a descriptor. -/
def hear (n : Node) (source : PeerId) : Message → Node
  | .fileDef d =>
    let (_, store, peers) := Gossip.hear n.store n.peers d source
    { n with store, peers }
  | _ => n

/-- Handles messages one after the other. -/
def hearAll (n : Node) (source : PeerId) (messages : List Message) : Node :=
  messages.foldl (fun n m => n.hear source m) n

/-- The node after a lesson. A share that fails and a payload that is refused leave it alone. -/
def learn (n : Node) : Lesson → Node
  | .share disk path =>
    match n.share disk path with
    | .error _ => n
    | .ok (_, n) => n
  | .payload payload source =>
    match Message.decode .fileDef payload with
    | .error _ => n
    | .ok m => n.hear source m

/-- The descriptor that was accepted, if one was: that of a file which was shared, or one which was
heard and passed on. -/
def learned? (n : Node) : Lesson → Option Descriptor
  | .share disk path =>
    match n.share disk path with
    | .error _ => none
    | .ok (d, _) => some d
  | .payload payload source =>
    match Message.decode .fileDef payload with
    | .ok (.fileDef d) => (Gossip.hear n.store n.peers d source).1.map fun _ => d
    | _ => none

/-- The node after one lesson after the other. -/
def learnAll (n : Node) (lessons : List Lesson) : Node := lessons.foldl learn n

/-- A descriptor that is heard is refused or accepted. -/
theorem hear_cases (n : Node) (d : Descriptor) (source : PeerId) :
    (Gossip.hear n.store n.peers d source).1 = none ∧ (∀ t, n.store.add d ≠ .ok t) ∧
        n.hear source (.fileDef d) = n ∨
      ∃ report t, (Gossip.hear n.store n.peers d source).1 = some report ∧
        n.store.add d = .ok t ∧ (n.hear source (.fileDef d)).store = t := by
  rw [hear, Gossip.hear, Gossip.learn]
  cases hadd : n.store.add d with
  | error cause =>
    left
    exact ⟨rfl, by simp, rfl⟩
  | ok t =>
    right
    exact ⟨_, t, rfl, rfl, rfl⟩

/-- A lesson leaves the store as it was, or adds an entry, of which the name has no NUL in it. -/
theorem learn_cases (n : Node) (lesson : Lesson) :
    n.learned? lesson = none ∧ (n.learn lesson).store = n.store ∨
      ∃ e : Entry, n.learned? lesson = some e.descriptor ∧ '\x00' ∉ e.descriptor.name.toList ∧
        n.store.insert e = .ok (n.learn lesson).store := by
  cases lesson with
  | share disk path =>
    rw [learned?, learn]
    cases hshare : n.share disk path with
    | error cause => exact .inl ⟨rfl, rfl⟩
    | ok shared =>
      obtain ⟨d, n'⟩ := shared
      obtain ⟨name, t, hname, hstore, rfl⟩ := exists_of_share hshare
      obtain ⟨id, -, hadd⟩ := Store.exists_openToRead_of_share hstore
      exact .inr ⟨.ofFile d path, rfl, Store.nul_notMem_of_share hname hstore, hadd⟩
  | payload payload source =>
    rw [learned?, learn]
    cases hdecode : Message.decode .fileDef payload with
    | error cause => exact .inl ⟨rfl, rfl⟩
    | ok m =>
      obtain ⟨htype, hwf, -⟩ := Message.encode_of_decode hdecode
      cases m with
      | fileDef d =>
        rcases n.hear_cases d source with ⟨hnone, -, hsame⟩ | ⟨report, t, hsome, hadd, hstore⟩
        · left
          simp only [hnone, hsame, Option.map_none]
          exact ⟨trivial, trivial⟩
        · right
          simp only [hsome, hstore, Option.map_some]
          exact ⟨_, rfl, hwf.2, hadd⟩
      | requestFileData request => cases htype
      | fileData chunk => cases htype
      | requestAddrSelf => cases htype
      | addrSelf observed => cases htype

/-- A lesson that is refused leaves the store alone. -/
theorem learn_of_refused {lesson : Lesson} (h : n.learned? lesson = none) :
    (n.learn lesson).store = n.store := by
  rcases n.learn_cases lesson with ⟨-, hsame⟩ | ⟨e, hsome, -⟩
  · exact hsame
  · rw [h] at hsome
    cases hsome

/-- A lesson that is accepted adds what it says, under a hash that was not known. -/
theorem learn_of_accepted (hs : n.store.Clean) {lesson : Lesson} (h : n.learned? lesson = some d) :
    n.store.contains d.hash = false ∧
      (n.learn lesson).store.descriptors.Perm (d :: n.store.descriptors) := by
  rcases n.learn_cases lesson with ⟨hnone, -⟩ | ⟨e, he, -, hinsert⟩
  · rw [hnone] at h
    cases h
  · obtain rfl : e.descriptor = d := Option.some.inj (he.symm.trans h)
    exact ⟨(hs.valid.exists_insert_iff.1 ⟨_, hinsert⟩).2.2, hs.valid.perm_descriptors hinsert⟩

/-- A payload is accepted just when it is a descriptor with a hash that was not known. -/
theorem learned?_payload_eq_some_iff (hs : n.store.Clean) (payload : Bytes) (source : PeerId) :
    n.learned? (.payload payload source) = some d ↔
      Message.decode .fileDef payload = .ok (.fileDef d) ∧ d.hash ≠ .zero ∧
        n.store.contains d.hash = false := by
  constructor
  · intro h
    obtain ⟨hnew, -⟩ := learn_of_accepted hs h
    rw [learned?] at h
    split at h
    · rename_i d' hdecode
      obtain ⟨report, hheard, hd⟩ := Option.map_eq_some_iff.1 h
      obtain rfl : d' = d := hd
      rcases n.hear_cases d' source with ⟨hnone, -⟩ | ⟨-, t, -, hadd, -⟩
      · rw [hnone] at hheard
        cases hheard
      · exact ⟨hdecode, (hs.valid.exists_insert_iff.1 ⟨t, hadd⟩).2.1, hnew⟩
    · cases h
  · rintro ⟨hdecode, hzero, hnew⟩
    obtain ⟨-, hwf, -⟩ := Message.encode_of_decode hdecode
    obtain ⟨t, hadd⟩ : ∃ t, n.store.add d = .ok t :=
      hs.valid.exists_insert_iff.2 ⟨hwf.1, hzero, hnew⟩
    rcases n.hear_cases d source with ⟨-, hno, -⟩ | ⟨report, -, hsome, -⟩
    · exact absurd hadd (hno t)
    · rw [learned?, hdecode]
      simp only [hsome, Option.map_some]

theorem clean_learn (h : n.store.Clean) (lesson : Lesson) : (n.learn lesson).store.Clean := by
  rcases n.learn_cases lesson with ⟨-, hsame⟩ | ⟨e, -, h0, hinsert⟩
  · rw [hsame]
    exact h
  · exact h.insert hinsert h0

/-- Whatever is shared and whatever peers send, a clean store stays clean. -/
theorem clean_learnAll (h : n.store.Clean) (lessons : List Lesson) :
    (n.learnAll lessons).store.Clean := by
  induction lessons generalizing n with
  | nil => exact h
  | cons lesson lessons ih => exact ih (clean_learn h lesson)

theorem lookup_learn (h : n.store.Clean) (lesson : Lesson) {hash : ContentHash} {e : Entry}
    (hl : n.store.lookup hash = some e) : (n.learn lesson).store.lookup hash = some e := by
  rcases n.learn_cases lesson with ⟨-, hsame⟩ | ⟨e', -, -, hinsert⟩
  · rw [hsame]
    exact hl
  · exact (h.valid.lookup_insert_iff hinsert).2 (.inr hl)

/-- What is found under a hash is found there for ever. -/
theorem lookup_learnAll (h : n.store.Clean) (lessons : List Lesson) {hash : ContentHash} {e : Entry}
    (hl : n.store.lookup hash = some e) : (n.learnAll lessons).store.lookup hash = some e := by
  induction lessons generalizing n with
  | nil => exact hl
  | cons lesson lessons ih => exact ih (clean_learn h lesson) (lookup_learn h lesson hl)

/-! ## Copies -/

/-- A node that hears descriptors, all of them new to it and no two with the same hash, knows them
afterwards and what it knew before. -/
theorem clean_hearAll (h : n.store.Clean) (source : PeerId) {ds : List Descriptor}
    (hwf : ∀ d ∈ ds, (Message.fileDef d).WellFormed) (hzero : ∀ d ∈ ds, d.hash ≠ .zero)
    (hnodup : (ds.map Descriptor.hash).Nodup)
    (hnew : ∀ d ∈ ds, n.store.contains d.hash = false) :
    (n.hearAll source (ds.map Message.fileDef)).store.Clean ∧
      (n.hearAll source (ds.map Message.fileDef)).store.descriptors.Perm
        (ds ++ n.store.descriptors) := by
  induction ds generalizing n with
  | nil => exact ⟨h, .refl _⟩
  | cons d ds ih =>
    rw [List.forall_mem_cons] at hwf hzero hnew
    rw [List.map_cons, List.nodup_cons] at hnodup
    obtain ⟨t, hadd⟩ : ∃ t, n.store.add d = .ok t :=
      h.valid.exists_insert_iff.2 ⟨hwf.1.1, hzero.1, hnew.1⟩
    have hstore : (n.hear source (.fileDef d)).store = t := by
      rcases n.hear_cases d source with ⟨-, hno, -⟩ | ⟨-, t', -, hadd', hstore⟩
      · exact absurd hadd (hno t)
      · rw [hadd, Except.ok.injEq] at hadd'
        exact hstore.trans hadd'.symm
    have hclean : (n.hear source (.fileDef d)).store.Clean := by
      rw [hstore]
      exact h.insert hadd hwf.1.2
    have hrest : ∀ d' ∈ ds, (n.hear source (.fileDef d)).store.contains d'.hash = false := by
      intro d' hd'
      rw [hstore, ← Bool.not_eq_true, h.valid.contains_insert hadd, not_or]
      refine ⟨?_, by rw [hnew.2 d' hd']; exact Bool.false_ne_true⟩
      intro heq
      exact hnodup.1 (List.mem_map.2 ⟨d', hd', heq⟩)
    obtain ⟨hends, hperm⟩ := ih hclean hwf.2 hzero.2 hnodup.2 hrest
    refine ⟨hends, hperm.trans ?_⟩
    rw [hstore]
    exact ((h.valid.perm_descriptors hadd).append_left ds).trans List.perm_middle

end Node

/-! ## Sending a catalog -/

theorem Message.readBack_of_wellFormed {m : Message} (h : m.WellFormed) : m.readBack = .ok m := by
  obtain ⟨payload, hencode, hdecode⟩ := decode_encode h
  simp only [readBack, hencode, bind, Except.bind, hdecode]
  rfl

/-- A reader of descriptors that survive the wire gets these. -/
theorem FrameReader.readAll_of_descriptors {r : FrameReader} {limit : UInt64} {ds : List Descriptor}
    (hlimit : Descriptor.width ≤ limit.toNat) (hwf : ∀ d ∈ ds, (Message.fileDef d).WellFormed)
    (h : r.unread = ds.flatMap Descriptor.frame) :
    (r.readAll limit.toNat).1 = ds.map Message.fileDef := by
  induction ds generalizing r with
  | nil =>
    obtain ⟨e, r', hnext, -⟩ := next_of_nil h limit.toNat
    rw [readAll_of_error hnext]
    rfl
  | cons d ds ih =>
    rw [List.forall_mem_cons] at hwf
    rw [List.flatMap_cons] at h
    obtain ⟨payload, hpayload, hlength⟩ := Descriptor.exists_encode hwf.1.1
    obtain ⟨hanswer, hrest⟩ := next_of_frame hpayload (hlength ▸ hlimit) h
    rw [Message.readBack_of_wellFormed hwf.1] at hanswer
    rw [readAll_of_ok (Prod.ext hanswer rfl), ih hwf.2 hrest, List.map_cons]

/-- A peer that takes what is written to it is sent every descriptor, in order. -/
theorem Gossip.sendAll_of_willing {peers : PeerSet} {id : PeerId} {p : Peer}
    (hp : peers.peer? id = some p) (hw : p.sink.Willing) {ds : List Descriptor}
    (hfits : ∀ d ∈ ds, d.nameLength ≤ nameWidth) (sent : Nat) :
    (sendAll id ds sent peers).1 = .ok (sent + ds.length) ∧
      (sendAll id ds sent peers).2.peer? id = some (p.push (ds.flatMap Descriptor.frame)) := by
  induction ds generalizing peers p sent with
  | nil =>
    refine ⟨rfl, ?_⟩
    rw [List.flatMap_nil, Peer.push, Sink.push_nil]
    exact hp
  | cons d ds ih =>
    rw [List.forall_mem_cons] at hfits
    obtain ⟨payload, hpayload, -⟩ := Descriptor.exists_encode hfits.1
    have hsend : peers.send id (.fileDef d) =
        (.ok (), peers.modify id fun _ => p.push d.frame) := by
      rw [PeerSet.send_of_peer? hp, Peer.send_of_willing hw hpayload]
      rfl
    have hafter : (peers.modify id fun _ => p.push d.frame).peer? id = some (p.push d.frame) := by
      rw [PeerSet.peer?_modify, if_pos rfl, hp]
      rfl
    obtain ⟨hcount, hpeer⟩ := ih hafter (hw.append d.frame) hfits.2 (sent + 1)
    rw [sendAll, hsend]
    refine ⟨hcount.trans ?_, hpeer.trans ?_⟩
    · rw [List.length_cons, Nat.add_assoc, Nat.add_comm 1]
    · rw [Peer.push, Peer.push, Peer.push, Sink.push_push, List.flatMap_cons]

/-- A node that knows nothing and handles what can be read from the bytes of a clean catalog has the
same descriptors under the same hashes. -/
theorem Node.lookup_hearAll {store : Store} (h : store.Clean) {r : FrameReader} {limit : UInt64}
    (hlimit : Descriptor.width ≤ limit.toNat)
    (hunread : r.unread = store.descriptors.flatMap Descriptor.frame) (n : Node) (dir : String)
    (source : PeerId) (hash : ContentHash) :
    ((({ n with store := .empty dir } : Node).hearAll source
      (r.readAll limit.toNat).1).store.lookup hash).map Entry.descriptor =
        (store.lookup hash).map Entry.descriptor := by
  have hempty : ({ n with store := .empty dir } : Node).store.Clean := Store.clean_empty dir
  have hnew : ∀ d ∈ store.descriptors, (Store.empty dir).contains d.hash = false :=
    fun d _ => Store.contains_empty dir d.hash
  obtain ⟨hends, hperm⟩ := clean_hearAll hempty source h.wellFormed h.hash_ne_zero
    h.nodup_hashes hnew
  rw [Store.descriptors_empty, List.append_nil] at hperm
  rw [FrameReader.readAll_of_descriptors hlimit h.wellFormed hunread]
  exact h.toFit.lookup_congr hends.toFit hperm hash

/-- Let a node that knew nothing share any files and be sent any payloads as descriptors. Then all
that it knows has a hash, survives the wire and can be encoded; whatever it knew at some time is
kept as it was; and a lesson that is refused leaves the store alone, while one that is accepted adds
what it says under a hash that was not known. A payload is accepted just when it is a descriptor
with a hash that was not known. A peer that takes what is written to it is told everything, which is
as much as there is in the store; and a node that knows nothing and handles what can be read from
these bytes has the same descriptors under the same hashes. -/
theorem Node.catalog_copies (n₀ : Node) (downloadDir : String) (lessons : List Lesson) :
    let start : Node := { n₀ with store := .empty downloadDir }
    let n := start.learnAll lessons
    (∀ d ∈ n.store.descriptors, d.hash ≠ .zero ∧ d.nameLength ≤ nameWidth ∧
      '\x00' ∉ d.name.toList ∧ ∃ payload, (Message.fileDef d).encode = .ok payload) ∧
    (∀ before after, lessons = before ++ after → ∀ hash e,
      (start.learnAll before).store.lookup hash = some e → n.store.lookup hash = some e) ∧
    (∀ lesson, n.learned? lesson = none → (n.learn lesson).store = n.store) ∧
    (∀ lesson d, n.learned? lesson = some d → n.store.contains d.hash = false ∧
      (n.learn lesson).store.descriptors.Perm (d :: n.store.descriptors)) ∧
    (∀ payload source d, n.learned? (.payload payload source) = some d ↔
      Message.decode .fileDef payload = .ok (.fileDef d) ∧ d.hash ≠ .zero ∧
        n.store.contains d.hash = false) ∧
    ∀ (peers : PeerSet) (id : PeerId) (p : Peer), peers.peer? id = some p → p.sink.Willing →
      ∃ sent : Bytes, (Gossip.sendCatalog n.store peers id).1 = .ok n.store.size ∧
        (Gossip.sendCatalog n.store peers id).2.peer? id = some (p.push sent) ∧
        ∀ (r : FrameReader) (limit : UInt64), r.unread = sent → Descriptor.width ≤ limit.toNat →
          ∀ (m₀ : Node) (dir : String) (source : PeerId) (hash : ContentHash),
            let m := ({ m₀ with store := .empty dir } : Node).hearAll source
              (r.readAll limit.toNat).1
            (m.store.lookup hash).map Entry.descriptor =
              (n.store.lookup hash).map Entry.descriptor := by
  intro start n
  have hstart : start.store.Clean := Store.clean_empty downloadDir
  have hclean : n.store.Clean := clean_learnAll hstart lessons
  refine ⟨?_, ?_, ?_, ?_, fun payload source d => learned?_payload_eq_some_iff hclean payload source,
    ?_⟩
  · intro d hd
    obtain ⟨hname, h0⟩ := hclean.wellFormed d hd
    obtain ⟨payload, hpayload, -⟩ := Descriptor.exists_encode hname
    exact ⟨hclean.hash_ne_zero d hd, hname, h0, payload, hpayload⟩
  · intro before after hsplit hash e hl
    have hn : n = (start.learnAll before).learnAll after := by
      rw [learnAll, learnAll, ← List.foldl_append, ← hsplit]
      rfl
    rw [hn]
    exact lookup_learnAll (clean_learnAll hstart before) after hl
  · intro lesson hnone
    exact learn_of_refused hnone
  · intro lesson d hsome
    exact learn_of_accepted hclean hsome
  · intro peers id p hp hw
    have hfits : ∀ d ∈ n.store.descriptors, d.nameLength ≤ nameWidth := fun d hd =>
      (hclean.wellFormed d hd).1
    obtain ⟨hcount, hpeer⟩ := Gossip.sendAll_of_willing hp hw hfits 0
    rw [Nat.zero_add, hclean.valid.length_descriptors] at hcount
    refine ⟨_, hcount, hpeer, ?_⟩
    intro r limit hunread hlimit m₀ dir source hash m
    exact lookup_hearAll hclean hlimit hunread m₀ dir source hash

/-- A descriptor that a peer sends is accepted, and once more it is refused. The next node is told
of it and knows it as well. -/
theorem Node.catalog_copies_heard :
    let d : Descriptor := ⟨"n", .ofBytes [1], .replicate chunkCount .zero, 8⟩
    let start : Node := { Node.new .standard with store := .empty "dl" }
    let peers : PeerSet := ⟨[.connected default .unlimited], [0]⟩
    ∃ payload sent, (Message.fileDef d).encode = .ok payload ∧
      start.learned? (.payload payload 0) = some d ∧
      (start.learnAll [.payload payload 0]).store.descriptors = [d] ∧
      (start.learnAll [.payload payload 0]).learned? (.payload payload 0) = none ∧
      (Gossip.sendCatalog (start.learnAll [.payload payload 0]).store peers 0).2.peer? 0 =
        some ((Peer.connected default .unlimited).push sent) ∧
      ((start.hearAll 0 ((FrameReader.ofSource ⟨[sent], .closed⟩).readAll 280).1).store.lookup
        d.hash).map Entry.descriptor = some d := by
  intro d start peers
  have hwf : (Message.fileDef d).WellFormed := ⟨by decide, by decide⟩
  obtain ⟨payload, hencode, hdecode⟩ := Message.decode_encode hwf
  obtain ⟨-, -, -, hadds, haccepts, -⟩ := Node.catalog_copies (.new .standard) "dl" []
  obtain ⟨-, -, -, -, hagain, hcopies⟩ :=
    Node.catalog_copies (.new .standard) "dl" [.payload payload 0]
  have hlearned : start.learned? (.payload payload 0) = some d :=
    (haccepts payload 0 d).2 ⟨hdecode, by decide, Store.contains_empty _ _⟩
  have hknown : (start.learnAll [.payload payload 0]).store.descriptors = [d] :=
    List.perm_singleton.1 (hadds _ d hlearned).2
  have hstart : start.store.Clean := Store.clean_empty "dl"
  have hclean := Node.clean_learnAll hstart [.payload payload 0]
  have hcontains : (start.learnAll [.payload payload 0]).store.contains d.hash = true := by
    rw [hclean.toFit.contains_iff, hknown]
    exact List.mem_singleton_self _
  obtain ⟨sent, -, hsent, hcopy⟩ := hcopies peers 0 _ rfl Sink.willing_unlimited
  refine ⟨payload, sent, hencode, hlearned, hknown, ?_, hsent, ?_⟩
  · refine Option.eq_none_iff_forall_not_mem.2 fun d' hd' => ?_
    obtain ⟨hdecode', -, hnew⟩ := (hagain payload 0 d').1 hd'
    cases hdecode.symm.trans hdecode'
    rw [hcontains] at hnew
    cases hnew
  · have hsame := hcopy (.ofSource ⟨[sent], .closed⟩) 280 (List.append_nil _) (by decide)
      (.new .standard) "dl" 0 d.hash
    refine hsame.trans (hclean.toFit.lookup_eq_some_iff.2 ⟨?_, rfl⟩)
    rw [hknown]
    exact List.mem_singleton_self d

end FileMesh
