import FileMesh.Proofs.Gossip.Mesh
import Mathlib.Algebra.BigOperators.Group.Finset.Basic
import Mathlib.Algebra.Group.Nat.Defs
import Mathlib.Algebra.Order.BigOperators.Group.Finset
import Mathlib.Data.Fintype.Basic

/-!
# How a descriptor spreads

A file is shared somewhere in a mesh of any shape, possibly at several nodes, and everything that
follows happens in any order. Each node announces the file once, so there are at most as many
messages about it as there are ends of links, and none goes back over the link on which a node
learned of the file. Once no message about the file is under way and no announcement of it is due,
the nodes that know it are exactly those that are connected to one that shared it, and each knows it
once.
-/

namespace FileMesh

variable {ι : Type} [DecidableEq ι]

/-- The announcement is made by this node and of a file with this hash. -/
def Announcement.concerns (u : ι) (hash : ContentHash) (a : Announcement ι) : Bool :=
  a.node = u ∧ a.descriptor.hash = hash

theorem Announcement.concerns_iff {u : ι} {hash : ContentHash} {a : Announcement ι} :
    a.concerns u hash = true ↔ a.node = u ∧ a.descriptor.hash = hash := decide_eq_true_iff

namespace Mesh

/-- A link joins two nodes. -/
def Adjacent (m : Mesh ι) (u v : ι) : Prop := ∃ p q, m.far (u, p) = some (v, q)

/-- A path of links joins two nodes. -/
def Connected (m : Mesh ι) : ι → ι → Prop := Relation.ReflTransGen m.Adjacent

/-- In this event a node shares a file with this hash, under a name that its store allows. -/
def Event.Shares (hash : ContentHash) (u : ι) : Event ι → Prop
  | .share v d _ => v = u ∧ d.hash = hash ∧ d.nameLength ≤ nameWidth
  | _ => False

/-- From `m₀` to `m` the file was shared at these nodes, and everything else about it is a
consequence of that. Exactly the announcements that were made were written. What was sent was either
read, and then its hash is known, or is under way. A node that knows the file has announced it once
or still has to, and what came from a connection was sent there. -/
structure Flooding (m₀ m : Mesh ι) (shares : ι → Prop) (hash : ContentHash) : Prop where
  joined : m.Joined
  far_eq : m.far = m₀.far
  members_eq : ∀ u, (m.node u).peers.members = (m₀.node u).peers.members
  fits : ∀ a ∈ m.pending ++ m.made, a.descriptor.nameLength ≤ nameWidth
  taken : ∀ x y, m.far x = some y →
    m.taken x = m₀.taken x ++ (m.sentOn x).flatMap Descriptor.frame
  read_le : ∀ x y, m.far x = some y → m.read x ≤ (m.taken y).length
  heard : ∀ x y, m.far x = some y → ∃ heard waiting, m.sentOn y = heard ++ waiting ∧
    m.unread x = waiting.flatMap Descriptor.frame ∧ ∀ d ∈ heard, d.hash = hash → m.Knows x.1 hash
  once : ∀ u, (m.pending ++ m.made).countP (Announcement.concerns u hash) =
    if m.Knows u hash then 1 else 0
  source : ∀ a ∈ m.pending ++ m.made, a.descriptor.hash = hash → ∀ q, a.source = some q →
    ∃ y, m.far (a.node, q) = some y ∧ ∃ d ∈ m.sentOn y, d.hash = hash
  knows_of_shares : ∀ u, shares u → m.Knows u hash
  exists_shares : ∀ u, m.Knows u hash → ∃ s, shares s ∧ m₀.Connected s u

variable {m₀ m : Mesh ι} {shares shares' : ι → Prop} {hash : ContentHash} {x y : Port ι}
variable {d : Descriptor} {a : Announcement ι}

theorem mem_sentOn : d ∈ m.sentOn x ↔
    ∃ a ∈ m.made, a.node = x.1 ∧ a.source ≠ some x.2 ∧ a.descriptor = d := by
  simp only [sentOn, List.mem_map, List.mem_filter, decide_eq_true_eq, and_assoc]

namespace Flooding

theorem knows_of_concerns (hf : Flooding m₀ m shares hash) (ha : a ∈ m.pending ++ m.made)
    (hhash : a.descriptor.hash = hash) : m.Knows a.node hash := by
  by_contra hnot
  have hnone := hf.once a.node
  rw [if_neg hnot] at hnone
  exact List.countP_eq_zero.1 hnone a ha (Announcement.concerns_iff.2 ⟨rfl, hhash⟩)

/-- Only a node that knows the file sends it. -/
theorem knows_of_sentOn (hf : Flooding m₀ m shares hash) (hd : d ∈ m.sentOn y)
    (hhash : d.hash = hash) : m.Knows y.1 hash := by
  obtain ⟨a, ha, hnode, -, rfl⟩ := mem_sentOn.1 hd
  exact hnode ▸ hf.knows_of_concerns (List.mem_append_right _ ha) hhash

/-- There is one announcement of the file by a node that knows it. -/
theorem eq_of_concerns (hf : Flooding m₀ m shares hash) {b : Announcement ι}
    (ha : a ∈ m.pending ++ m.made) (hahash : a.descriptor.hash = hash)
    (hb : b ∈ m.pending ++ m.made) (hbhash : b.descriptor.hash = hash) (hnode : b.node = a.node) :
    b = a := by
  have hone := hf.once a.node
  rw [if_pos (hf.knows_of_concerns ha hahash), List.countP_eq_length_filter,
    List.length_eq_one_iff] at hone
  obtain ⟨c, hc⟩ := hone
  have hac : a ∈ [c] := hc ▸ List.mem_filter.2 ⟨ha, Announcement.concerns_iff.2 ⟨rfl, hahash⟩⟩
  have hbc : b ∈ [c] := hc ▸ List.mem_filter.2 ⟨hb, Announcement.concerns_iff.2 ⟨hnode, hbhash⟩⟩
  rw [List.mem_singleton.1 hac, List.mem_singleton.1 hbc]

/-- More can be told of who shared the file, as long as they know it. -/
theorem mono (hf : Flooding m₀ m shares hash) (hsub : ∀ u, shares u → shares' u)
    (hknows : ∀ u, shares' u → m.Knows u hash) : Flooding m₀ m shares' hash :=
  { hf with
    knows_of_shares := hknows
    exists_shares := fun u hu => by
      obtain ⟨s, hs, hpath⟩ := hf.exists_shares u hu
      exact ⟨s, hsub s hs, hpath⟩ }

/-! ## One event -/

theorem knows_adopt_iff (hv : (m.node u).store.Valid) {e : Entry} {store : Store}
    (hi : (m.node u).store.insert e = .ok store) (source : Option PeerId) (v : ι)
    (k : ContentHash) : (m.adopt u (some store) e.descriptor source).Knows v k ↔
      (v = u ∧ k = e.descriptor.hash) ∨ m.Knows v k := by
  rw [Knows, node_adopt_some]
  by_cases hvu : v = u
  · rw [if_pos hvu, hv.contains_insert hi]
    simp [hvu, Knows]
  · rw [if_neg hvu]
    simp [hvu, Knows]

theorem mem_adopt_some {u : ι} {store : Store} {source : Option PeerId} :
    a ∈ (m.adopt u (some store) d source).pending ++ (m.adopt u (some store) d source).made ↔
      a = ⟨u, d, source⟩ ∨ a ∈ m.pending ++ m.made := by
  simp only [Mesh.adopt, List.mem_append, List.mem_singleton]
  tauto

theorem countP_adopt_some {u : ι} {store : Store} {source : Option PeerId}
    (p : Announcement ι → Bool) : ((m.adopt u (some store) d source).pending ++
      (m.adopt u (some store) d source).made).countP p =
        (m.pending ++ m.made).countP p + if p ⟨u, d, source⟩ then 1 else 0 := by
  simp only [Mesh.adopt, List.countP_append, List.countP_singleton]
  omega

/-- The node that sent the file has it from one that shares it, and so has the node it was sent to.
-/
theorem exists_shares_of_sentOn (hf : Flooding m₀ m shares hash) {u : ι} {q : PeerId}
    (hy : m.far (u, q) = some y) (hd : d ∈ m.sentOn y) (hhash : d.hash = hash) :
    ∃ s, shares s ∧ m₀.Connected s u := by
  obtain ⟨s, hs, hpath⟩ := hf.exists_shares y.1 (hf.knows_of_sentOn hd hhash)
  have hback := hf.joined.far_symm _ _ hy
  rw [hf.far_eq] at hback
  exact ⟨s, hs, hpath.tail ⟨y.2, q, hback⟩⟩

/-- A node that accepts an entry has to announce its descriptor. If it came from a connection, it
was sent there; if not, the node shares the file. -/
theorem adopt_some (hf : Flooding m₀ m shares hash) {u : ι} {e : Entry} {store : Store}
    (hi : (m.node u).store.insert e = .ok store) {source : Option PeerId}
    (hsource : e.descriptor.hash = hash → ∀ q, source = some q →
      ∃ y, m.far (u, q) = some y ∧ ∃ d ∈ m.sentOn y, d.hash = hash)
    (hsub : ∀ v, shares v → shares' v)
    (hnew : ∀ v, shares' v → shares v ∨ v = u ∧ e.descriptor.hash = hash)
    (hown : e.descriptor.hash = hash → source = none → shares' u) :
    Flooding m₀ (m.adopt u (some store) e.descriptor source) shares' hash := by
  have hknows := knows_adopt_iff (hf.joined.valid u) hi source
  have hunknown : ¬ m.Knows u e.descriptor.hash := by
    have hcontains := ((hf.joined.valid u).exists_insert_iff.1 ⟨store, hi⟩).2.2
    rw [Knows, hcontains]
    exact Bool.false_ne_true
  refine
    { joined := hf.joined.adopt hi source
      far_eq := (far_adopt ..).trans hf.far_eq
      members_eq := fun v => ?_
      fits := fun a ha => ?_
      taken := fun x y hxy => ?_
      read_le := fun x y hxy => ?_
      heard := fun x y hxy => ?_
      once := fun v => ?_
      source := fun a ha hahash q hq => ?_
      knows_of_shares := fun v hv => ?_
      exists_shares := fun v hv => ?_ }
  · rw [(peers_adopt ..).1]
    exact hf.members_eq v
  · rcases mem_adopt_some.1 ha with rfl | ha
    · exact Store.nameLength_le_of_insert hi
    · exact hf.fits a ha
  · rw [far_adopt] at hxy
    rw [taken_adopt, sentOn_adopt]
    exact hf.taken x y hxy
  · rw [far_adopt] at hxy
    rw [taken_adopt, read_adopt]
    exact hf.read_le x y hxy
  · rw [far_adopt] at hxy
    obtain ⟨heard, waiting, hsent, hunread, hheard⟩ := hf.heard x y hxy
    rw [sentOn_adopt, unread_adopt]
    exact ⟨heard, waiting, hsent, hunread, fun d hd hhash =>
      (hknows x.1 hash).2 (.inr (hheard d hd hhash))⟩
  · rw [countP_adopt_some, hf.once v]
    by_cases hconcerns : u = v ∧ e.descriptor.hash = hash
    · rw [if_pos (Announcement.concerns_iff.2 hconcerns)]
      obtain ⟨rfl, rfl⟩ := hconcerns
      rw [if_neg hunknown, if_pos ((hknows u _).2 (.inl ⟨rfl, rfl⟩))]
    · have hsame : (m.adopt u (some store) e.descriptor source).Knows v hash ↔ m.Knows v hash := by
        rw [hknows]
        exact or_iff_right fun hc => hconcerns ⟨hc.1.symm, hc.2.symm⟩
      rw [if_neg fun hc => hconcerns (Announcement.concerns_iff.1 hc), Nat.add_zero]
      exact if_congr hsame.symm rfl rfl
  · simp only [far_adopt, sentOn_adopt]
    rcases mem_adopt_some.1 ha with rfl | ha
    · exact hsource hahash q hq
    · exact hf.source a ha hahash q hq
  · rw [hknows]
    rcases hnew v hv with hv | ⟨rfl, hhash⟩
    · exact .inr (hf.knows_of_shares v hv)
    · exact .inl ⟨rfl, hhash.symm⟩
  · rcases (hknows v hash).1 hv with ⟨rfl, hhash⟩ | hv
    · cases hs : source with
      | none => exact ⟨v, hown hhash.symm hs, .refl⟩
      | some q =>
        obtain ⟨y, hy, d, hd, hdhash⟩ := hsource hhash.symm q hs
        obtain ⟨s, hs, hpath⟩ := hf.exists_shares_of_sentOn hy hd hdhash
        exact ⟨s, hsub s hs, hpath⟩
    · obtain ⟨s, hs, hpath⟩ := hf.exists_shares v hv
      exact ⟨s, hsub s hs, hpath⟩

/-- A file that is refused although its name fits is known, unless its hash is reserved. -/
theorem knows_of_refused (hf : Flooding m₀ m shares hash) (hz : hash ≠ .zero) {u : ι} {e : Entry}
    {cause : StoreError} (hi : (m.node u).store.insert e = .error cause)
    (hfits : e.descriptor.nameLength ≤ nameWidth) (hhash : e.descriptor.hash = hash) :
    m.Knows u hash := by
  by_contra hnot
  obtain ⟨t, ht⟩ := (hf.joined.valid u).exists_insert_iff.2
    ⟨hfits, hhash ▸ hz, Bool.of_not_eq_true (hhash ▸ hnot)⟩
  cases hi.symm.trans ht

/-- Sharing a file. -/
theorem share (hf : Flooding m₀ m shares hash) (hz : hash ≠ .zero) (u : ι) (d : Descriptor)
    (path : String) : Flooding m₀ (m.share u d path)
      (fun v => shares v ∨ (Event.share u d path).Shares hash v) hash := by
  rw [Mesh.share, Store.addFile]
  cases hi : (m.node u).store.insert (.ofFile d path) with
  | ok store =>
    have hfits : d.nameLength ≤ nameWidth := Store.nameLength_le_of_insert hi
    refine hf.adopt_some hi nofun (fun v hv => .inl hv) (fun v hv => ?_)
      fun hhash _ => .inr ⟨rfl, hhash, hfits⟩
    rcases hv with hv | ⟨rfl, hhash, -⟩
    · exact .inl hv
    · exact .inr ⟨rfl, hhash⟩
  | error cause =>
    refine hf.mono (fun v hv => .inl hv) fun v hv => ?_
    rcases hv with hv | ⟨rfl, hhash, hfits⟩
    · exact hf.knows_of_shares v hv
    · exact hf.knows_of_refused hz hi hfits hhash

/-- Hearing of a file on a connection on which it was sent. -/
theorem hear (hf : Flooding m₀ m shares hash) (hxy : m.far x = some y)
    (hsent : d.hash = hash → ∃ d ∈ m.sentOn y, d.hash = hash) :
    Flooding m₀ (m.adopt x.1 (Gossip.learn (m.node x.1).store d) d (some x.2)) shares hash := by
  rw [Gossip.learn, Store.add]
  cases hi : (m.node x.1).store.insert
      (.ofPeer d (Path.join (m.node x.1).store.downloadDir (Store.fileName d))) with
  | ok store =>
    refine hf.adopt_some hi (fun hhash q hq => ?_) (fun v hv => hv) (fun v hv => .inl hv) nofun
    obtain rfl := Option.some.inj hq
    exact ⟨y, hxy, hsent hhash⟩
  | error cause => exact hf

theorem knows_hear (hf : Flooding m₀ m shares hash) (hz : hash ≠ .zero)
    (hfits : d.nameLength ≤ nameWidth) (hhash : d.hash = hash) (x : Port ι) :
    (m.adopt x.1 (Gossip.learn (m.node x.1).store d) d (some x.2)).Knows x.1 hash := by
  rw [Gossip.learn, Store.add]
  cases hi : (m.node x.1).store.insert
      (.ofPeer d (Path.join (m.node x.1).store.downloadDir (Store.fileName d))) with
  | ok store => exact (knows_adopt_iff (hf.joined.valid x.1) hi _ _ _).2 (.inl ⟨rfl, hhash.symm⟩)
  | error cause => exact hf.knows_of_refused hz hi hfits hhash

theorem knows_hear_of_knows (hf : Flooding m₀ m shares hash) {u : ι} {k : ContentHash}
    (hk : m.Knows u k) (d : Descriptor) (x : Port ι) :
    (m.adopt x.1 (Gossip.learn (m.node x.1).store d) d (some x.2)).Knows u k := by
  rw [Gossip.learn, Store.add]
  cases hi : (m.node x.1).store.insert
      (.ofPeer d (Path.join (m.node x.1).store.downloadDir (Store.fileName d))) with
  | ok store => exact (knows_adopt_iff (hf.joined.valid x.1) hi _ _ _).2 (.inr hk)
  | error cause => exact hk

/-- A frame that was read is no longer under way. -/
theorem skip (hf : Flooding m₀ m shares hash) (hxy : m.far x = some y)
    {heard waiting : List Descriptor} (hsent : m.sentOn y = heard ++ d :: waiting)
    (hunread : m.unread x = d.frame ++ waiting.flatMap Descriptor.frame)
    (hheard : ∀ c ∈ heard ++ [d], c.hash = hash → m.Knows x.1 hash) :
    Flooding m₀ (m.skip x d.frame.length) shares hash := by
  refine
    { hf with
      joined := hf.joined.skip x _
      read_le := fun z w hzw => ?_
      heard := fun z w hzw => ?_ }
  · change (m.skip x d.frame.length).read z ≤ (m.taken w).length
    by_cases hzx : z = x
    · subst hzx
      obtain rfl := Option.some.inj (hxy.symm.trans hzw)
      have hlen := congrArg List.length ((unread_eq hxy).symm.trans hunread)
      have hle := hf.read_le z y hxy
      rw [List.length_drop, List.length_append] at hlen
      rw [read_skip_self]
      omega
    · rw [read_skip_of_ne hzx]
      exact hf.read_le z w hzw
  · by_cases hzx : z = x
    · subst hzx
      obtain rfl := Option.some.inj (hxy.symm.trans hzw)
      refine ⟨heard ++ [d], waiting, ?_, ?_, hheard⟩
      · rw [List.append_assoc]
        exact hsent
      · rw [unread_skip_self, hunread, List.drop_left]
    · rw [unread_skip_of_ne hzx]
      exact hf.heard z w hzw

/-- Reading a frame. -/
theorem deliver (hf : Flooding m₀ m shares hash) (hz : hash ≠ .zero) (x : Port ι) :
    Flooding m₀ (m.deliver x) shares hash := by
  cases hxy : m.far x with
  | none =>
    have hunread : m.unread x = [] := by rw [Mesh.unread, hxy]
    rw [deliver_of_nil hunread]
    exact hf
  | some y =>
    obtain ⟨heard, waiting, hsent, hunread, hheard⟩ := hf.heard x y hxy
    cases waiting with
    | nil =>
      rw [deliver_of_nil hunread]
      exact hf
    | cons d waiting =>
      rw [List.flatMap_cons] at hunread
      have hd : d ∈ m.sentOn y := hsent ▸ List.mem_append_right _ List.mem_cons_self
      obtain ⟨a, ha, -, -, hda⟩ := mem_sentOn.1 hd
      have hfits := hf.fits a (List.mem_append_right _ ha)
      rw [hda] at hfits
      obtain ⟨d', hhash, hname, hdeliver⟩ := deliver_of_frame hf.joined hfits hunread
      have hhear := hf.hear (d := d') hxy fun hc => ⟨d, hd, hhash.symm.trans hc⟩
      rw [hdeliver]
      refine hhear.skip ((congrFun (far_adopt ..) x).trans hxy) ((sentOn_adopt ..).trans hsent)
        ((unread_adopt ..).trans hunread) fun c hc hchash => ?_
      rcases List.mem_append.1 hc with hc | hc
      · exact hf.knows_hear_of_knows (hheard c hc hchash) d' x
      · rw [List.mem_singleton.1 hc] at hchash
        exact hf.knows_hear hz hname (hhash.trans hchash) x

theorem knows_make_iff (m : Mesh ι) (a : Announcement ι) (u : ι) (k : ContentHash) :
    (m.make a).Knows u k ↔ m.Knows u k := by
  rw [Knows, node_make]
  split <;> rfl

/-- Making an announcement puts it under way on the connections of its node. -/
theorem make (hf : Flooding m₀ m shares hash) {pending : List (Announcement ι)}
    (hperm : (pending ++ (m.made ++ [a])).Perm (m.pending ++ m.made)) :
    Flooding m₀ { m.make a with pending } shares hash := by
  have hfits : a.descriptor.nameLength ≤ nameWidth :=
    hf.fits a (hperm.mem_iff.1 (by simp))
  have hjoined := hf.joined.make hfits
  have htaken (x y : Port ι) (hxy : m.far x = some y) : (m.make a).taken x = m.taken x ++
      (if a.node = x.1 ∧ a.source ≠ some x.2 then [a.descriptor] else []).flatMap
        Descriptor.frame := by
    rw [taken_make hf.joined hfits (hf.joined.mem_members hxy)]
    split <;> simp
  refine
    { joined := ⟨hjoined.far_symm, hjoined.mem_members_iff, hjoined.nodup, hjoined.willing,
        hjoined.limit, hjoined.valid, hjoined.keyed⟩
      far_eq := hf.far_eq
      members_eq := fun u => (members_make hf.joined a u).trans (hf.members_eq u)
      fits := fun b hb => hf.fits b (hperm.mem_iff.1 hb)
      taken := fun x y hxy => ?_
      read_le := fun x y hxy => ?_
      heard := fun x y hxy => ?_
      once := fun u => ?_
      source := fun b hb hbhash q hq => ?_
      knows_of_shares := fun u hu => (knows_make_iff m a u hash).2 (hf.knows_of_shares u hu)
      exists_shares := fun u hu => hf.exists_shares u ((knows_make_iff m a u hash).1 hu) }
  · change (m.make a).taken x = m₀.taken x ++ ((m.make a).sentOn x).flatMap Descriptor.frame
    rw [htaken x y hxy, sentOn_make, hf.taken x y hxy, List.flatMap_append, List.append_assoc]
  · change m.read x ≤ ((m.make a).taken y).length
    rw [htaken y x (hf.joined.far_symm x y hxy), List.length_append]
    exact Nat.le_add_right_of_le (hf.read_le x y hxy)
  · obtain ⟨heard, waiting, hsent, hunread, hheard⟩ := hf.heard x y hxy
    refine ⟨heard, waiting ++ (if a.node = y.1 ∧ a.source ≠ some y.2 then [a.descriptor] else []),
      ?_, ?_, fun d hd hhash => (knows_make_iff m a x.1 hash).2 (hheard d hd hhash)⟩
    · rw [← List.append_assoc, ← hsent]
      exact sentOn_make m a y
    · have hmade : (m.make a).unread x = ((m.make a).taken y).drop (m.read x) := unread_eq hxy
      have hbefore : m.unread x = (m.taken y).drop (m.read x) := unread_eq hxy
      change (m.make a).unread x = _
      rw [hmade, htaken y x (hf.joined.far_symm x y hxy),
        List.drop_append_of_le_length (hf.read_le x y hxy), List.flatMap_append, ← hunread, hbefore]
  · refine (hperm.countP_eq _).trans ?_
    rw [hf.once u]
    exact if_congr (knows_make_iff m a u hash).symm rfl rfl
  · obtain ⟨y, hy, d, hd, hdhash⟩ := hf.source b (hperm.mem_iff.1 hb) hbhash q hq
    refine ⟨y, hy, d, ?_, hdhash⟩
    change d ∈ (m.make a).sentOn y
    rw [sentOn_make]
    exact List.mem_append_left _ hd

theorem announce (hf : Flooding m₀ m shares hash) (k : Nat) :
    Flooding m₀ (m.announce k) shares hash := by
  rw [Mesh.announce]
  cases hk : m.pending[k]? with
  | none => exact hf
  | some a =>
    obtain ⟨hlt, ha⟩ := List.getElem?_eq_some_iff.1 hk
    refine hf.make ?_
    have hsplit := List.getElem_cons_eraseIdx_perm hlt
    rw [ha] at hsplit
    rw [← List.append_assoc]
    exact (List.perm_append_singleton _ _).trans (hsplit.append_right m.made)

/-- Whatever happens, the flood goes on as it should. -/
theorem step (hf : Flooding m₀ m shares hash) (hz : hash ≠ .zero) (event : Event ι) :
    Flooding m₀ (m.step event) (fun u => shares u ∨ event.Shares hash u) hash := by
  cases event with
  | share u d path => exact hf.share hz u d path
  | deliver x => exact (hf.deliver hz x).mono (fun u hu => .inl hu) fun u hu =>
      (hf.deliver hz x).knows_of_shares u (hu.resolve_right id)
  | announce k => exact (hf.announce k).mono (fun u hu => .inl hu) fun u hu =>
      (hf.announce k).knows_of_shares u (hu.resolve_right id)

end Flooding

/-! ## Any number of events -/

/-- Nothing is known of the file, nothing is under way and nothing is to be announced. -/
structure Idle (m : Mesh ι) (hash : ContentHash) : Prop where
  pending : m.pending = []
  made : m.made = []
  read : ∀ x y, m.far x = some y → m.read x = (m.taken y).length
  unknown : ∀ u, ¬ m.Knows u hash

/-- Some of these events shares a file with this hash at the node. -/
def Shared (events : List (Event ι)) (hash : ContentHash) (u : ι) : Prop :=
  ∃ e ∈ events, e.Shares hash u

theorem Idle.flooding (h : m₀.Idle hash) (hjoined : m₀.Joined) :
    Flooding m₀ m₀ (Shared [] hash) hash where
  joined := hjoined
  far_eq := rfl
  members_eq _ := rfl
  fits a ha := by
    rw [h.pending, h.made] at ha
    cases ha
  taken x y hxy := by
    rw [sentOn, h.made]
    exact (List.append_nil _).symm
  read_le x y hxy := (h.read x y hxy).le
  heard x y hxy := by
    refine ⟨[], [], ?_, ?_, fun _ hx => absurd hx List.not_mem_nil⟩
    · rw [sentOn, h.made]
      rfl
    · rw [unread_eq hxy, h.read x y hxy, List.drop_length]
      rfl
  once u := by
    rw [h.pending, h.made, if_neg (h.unknown u)]
    rfl
  source a ha := by
    rw [h.pending, h.made] at ha
    cases ha
  knows_of_shares u hu := by
    obtain ⟨e, he, -⟩ := hu
    cases he
  exists_shares u hu := absurd hu (h.unknown u)

/-- The invariant holds after any events. -/
theorem flooding_run (h : m₀.Idle hash) (hjoined : m₀.Joined) (hz : hash ≠ .zero)
    (events : List (Event ι)) : Flooding m₀ (m₀.run events) (Shared events hash) hash := by
  induction events using List.reverseRecOn with
  | nil => exact h.flooding hjoined
  | append_singleton events event ih =>
    have hstep := ih.step hz event
    rw [run, List.foldl_append]
    refine hstep.mono (fun u hu => ?_) fun u hu => hstep.knows_of_shares u ?_
    · rcases hu with ⟨e, he, hshares⟩ | hshares
      · exact ⟨e, List.mem_append_left _ he, hshares⟩
      · exact ⟨event, List.mem_append_right _ List.mem_cons_self, hshares⟩
    · obtain ⟨e, he, hshares⟩ := hu
      rcases List.mem_append.1 he with he | he
      · exact .inl ⟨e, he, hshares⟩
      · exact .inr (List.mem_singleton.1 he ▸ hshares)

/-! ## In the end -/

/-- The messages under way to the reader of a connection. -/
def underWay (m : Mesh ι) (x : Port ι) : List Message :=
  ((m.reader x).readAll (m.node x.1).config.maxFrameBytes.toNat).1

omit [DecidableEq ι] in
theorem underWay_of_nil (h : m.unread x = []) : m.underWay x = [] := by
  obtain ⟨e, r', hnext, -⟩ := FrameReader.next_of_nil ((m.unread_reader x).trans h)
    (m.node x.1).config.maxFrameBytes.toNat
  rw [underWay, FrameReader.readAll_of_error hnext]

/-- No message about the file is under way and no announcement of it is to be made. -/
structure Settled (m : Mesh ι) (hash : ContentHash) : Prop where
  pending : ∀ a ∈ m.pending, a.descriptor.hash ≠ hash
  underWay : ∀ x d, .fileDef d ∈ m.underWay x → d.hash ≠ hash

/-- A reader gets a message for every descriptor before it. -/
theorem exists_mem_readAll {r : FrameReader} {limit : UInt64} {ds : List Descriptor}
    (hlimit : Descriptor.width ≤ limit.toNat) (hfits : ∀ d ∈ ds, d.nameLength ≤ nameWidth)
    (hunread : r.unread = ds.flatMap Descriptor.frame) (hd : d ∈ ds) :
    ∃ d' : Descriptor, .fileDef d' ∈ (r.readAll limit.toNat).1 ∧ d'.hash = d.hash := by
  induction ds generalizing r with
  | nil => cases hd
  | cons c ds ih =>
    rw [List.forall_mem_cons] at hfits
    rw [List.flatMap_cons] at hunread
    obtain ⟨payload, hpayload, hlength⟩ := Descriptor.exists_encode hfits.1
    obtain ⟨c', hback, hhash, -⟩ := Descriptor.readBack hfits.1
    obtain ⟨hanswer, hrest⟩ := FrameReader.next_of_frame hpayload (hlength ▸ hlimit) hunread
    rw [FrameReader.readAll_of_ok (Prod.ext (hanswer.trans hback) rfl)]
    rcases List.mem_cons.1 hd with rfl | hd
    · exact ⟨c', List.mem_cons_self, hhash⟩
    · obtain ⟨d', hd', hdhash⟩ := ih hfits.2 hrest hd
      exact ⟨d', List.mem_cons_of_mem _ hd', hdhash⟩

namespace Flooding

theorem fits_of_sentOn (hf : Flooding m₀ m shares hash) (hd : d ∈ m.sentOn y) :
    d.nameLength ≤ nameWidth := by
  obtain ⟨a, ha, -, -, rfl⟩ := mem_sentOn.1 hd
  exact hf.fits a (List.mem_append_right _ ha)

/-- When everything is settled, whoever is linked to a node that knows the file knows it. -/
theorem knows_of_settled (hf : Flooding m₀ m shares hash) (hsettled : m.Settled hash)
    (hxy : m.far x = some y) (hy : m.Knows y.1 hash) : m.Knows x.1 hash := by
  have hback := hf.joined.far_symm x y hxy
  have hone := hf.once y.1
  rw [if_pos hy] at hone
  obtain ⟨a, ha, hconcerns⟩ := List.countP_pos_iff.1 (hone ▸ Nat.one_pos)
  obtain ⟨hnode, hhash⟩ := Announcement.concerns_iff.1 hconcerns
  have hmade : a ∈ m.made :=
    (List.mem_append.1 ha).resolve_left fun hpending => hsettled.pending a hpending hhash
  by_cases hsource : a.source = some y.2
  · obtain ⟨z, hz, d, hd, hdhash⟩ := hf.source a ha hhash y.2 hsource
    rw [hnode] at hz
    obtain rfl := Option.some.inj (hback.symm.trans hz)
    exact hf.knows_of_sentOn hd hdhash
  · have hsent : a.descriptor ∈ m.sentOn y := mem_sentOn.2 ⟨a, hmade, hnode, hsource, rfl⟩
    obtain ⟨heard, waiting, hsplit, hunread, hheard⟩ := hf.heard x y hxy
    rw [hsplit] at hsent
    rcases List.mem_append.1 hsent with hin | hin
    · exact hheard _ hin hhash
    · have hfits : ∀ d ∈ waiting, d.nameLength ≤ nameWidth := fun d hd =>
        hf.fits_of_sentOn (hsplit ▸ List.mem_append_right heard hd)
      have hreader : (m.reader x).unread = waiting.flatMap Descriptor.frame :=
        (m.unread_reader x).trans hunread
      obtain ⟨d', hd', hdhash⟩ := exists_mem_readAll (hf.joined.limit x.1) hfits hreader hin
      exact absurd (hdhash.trans hhash) (hsettled.underWay x d' hd')

theorem knows_of_connected (hf : Flooding m₀ m shares hash) (hsettled : m.Settled hash) {u v : ι}
    (hpath : m₀.Connected u v) (hu : m.Knows u hash) : m.Knows v hash := by
  induction hpath with
  | refl => exact hu
  | tail _ hlink ih =>
    obtain ⟨p, q, hfar⟩ := hlink
    rw [← hf.far_eq] at hfar
    exact hf.knows_of_settled hsettled (hf.joined.far_symm _ _ hfar) ih

theorem countP_made_le (hf : Flooding m₀ m shares hash) (u : ι) :
    m.made.countP (Announcement.concerns u hash) ≤ 1 := by
  have hone := hf.once u
  rw [List.countP_append] at hone
  split at hone <;> omega

/-- At most one message about the file goes out on each connection. -/
theorem countP_sentOn_le (hf : Flooding m₀ m shares hash) (x : Port ι) :
    (m.sentOn x).countP (fun d => d.hash = hash) ≤ 1 := by
  refine le_trans ?_ (hf.countP_made_le x.1)
  rw [sentOn, List.countP_map, List.countP_filter]
  refine List.countP_mono_left fun a _ ha => ?_
  rw [Bool.and_eq_true, decide_eq_true_iff] at ha
  exact Announcement.concerns_iff.2 ⟨ha.2.1, of_decide_eq_true ha.1⟩

/-- A node that learned of the file from a connection does not send it back there. -/
theorem hash_ne_of_source (hf : Flooding m₀ m shares hash) (ha : a ∈ m.pending ++ m.made)
    (hhash : a.descriptor.hash = hash) (hsource : a.source = some x.2) (hnode : a.node = x.1)
    (hd : d ∈ m.sentOn x) : d.hash ≠ hash := by
  obtain ⟨b, hb, hbnode, hbsource, rfl⟩ := mem_sentOn.1 hd
  intro hbhash
  have hsame := hf.eq_of_concerns ha hhash (List.mem_append_right _ hb) hbhash
    (hbnode.trans hnode.symm)
  exact hbsource (hsame ▸ hsource)

end Flooding

/-- An announcement stays to be made until it is made. -/
theorem mem_step (ha : a ∈ m.pending ++ m.made) (event : Event ι) :
    a ∈ (m.step event).pending ++ (m.step event).made := by
  have hadopt (u : ι) (store : Option Store) (d : Descriptor) (source : Option PeerId) :
      a ∈ (m.adopt u store d source).pending ++ (m.adopt u store d source).made := by
    cases store with
    | none => exact ha
    | some store => exact Flooding.mem_adopt_some.2 (.inr ha)
  have hhandle (x : Port ι) (answer : Except FrameError Message) :
      a ∈ (m.handle x answer).pending ++ (m.handle x answer).made := by
    rw [handle.eq_def]
    split
    · exact hadopt ..
    · exact ha
  cases event with
  | share u d path => exact hadopt ..
  | deliver x => exact hhandle x _
  | announce k =>
    rw [step, announce]
    cases hk : m.pending[k]? with
    | none => exact ha
    | some b =>
      obtain ⟨hlt, hb⟩ := List.getElem?_eq_some_iff.1 hk
      have hsplit := List.getElem_cons_eraseIdx_perm hlt
      simp only [make, List.mem_append, ← hsplit.mem_iff, List.mem_cons, hb] at ha ⊢
      tauto

theorem mem_run (ha : a ∈ m.pending ++ m.made) (events : List (Event ι)) :
    a ∈ (m.run events).pending ++ (m.run events).made := by
  induction events generalizing m with
  | nil => exact ha
  | cons event events ih => exact ih (mem_step ha event)

/-- A node that learns of a file from a message has it to announce, except where it came from. -/
theorem exists_pending_of_handle (h : m.Joined) {answer : Except FrameError Message}
    (hnot : ¬ m.Knows x.1 hash) (hknows : (m.handle x answer).Knows x.1 hash) :
    ∃ a ∈ (m.handle x answer).pending,
      a.node = x.1 ∧ a.source = some x.2 ∧ a.descriptor.hash = hash := by
  rw [handle.eq_def] at hknows ⊢
  split at hknows
  · rename_i d
    rw [Gossip.learn, Store.add] at hknows ⊢
    cases hi : (m.node x.1).store.insert
        (.ofPeer d (Path.join (m.node x.1).store.downloadDir (Store.fileName d))) with
    | ok store =>
      rw [hi] at hknows
      have hnew := (Flooding.knows_adopt_iff (h.valid x.1) hi _ _ _).1 hknows
      refine ⟨⟨x.1, d, some x.2⟩, ?_, rfl, rfl, (hnew.resolve_right hnot).2.symm⟩
      exact List.mem_append_right _ List.mem_cons_self
    | error cause =>
      rw [hi] at hknows
      exact absurd hknows hnot
  · exact absurd hknows hnot

/-- Nodes that do not know a file are joined by links that work, and then files are shared, messages
are read and announcements are made in any order. Exactly the announcements that were made are
written. Each node makes at most one of the file, so there are at most as many messages about it as
ends of links, and a node that learned of it on a link sends none back there. Once the file has
settled, exactly the nodes connected to one that shared it know it, each under a single entry. -/
theorem flood_run [Fintype ι] (hjoined : m₀.Joined) (hidle : m₀.Idle hash) (hz : hash ≠ .zero)
    (events : List (Event ι)) :
    (∀ x y, m₀.far x = some y → (m₀.run events).taken x =
        m₀.taken x ++ ((m₀.run events).sentOn x).flatMap Descriptor.frame) ∧
      (∀ u, (m₀.run events).made.countP (Announcement.concerns u hash) ≤ 1) ∧
      ∑ u, ((m₀.node u).peers.members.map fun p =>
          ((m₀.run events).sentOn (u, p)).countP fun d => d.hash = hash).sum ≤
        ∑ u, (m₀.node u).peers.size ∧
      (∀ before x after, events = before ++ .deliver x :: after →
        ¬ (m₀.run before).Knows x.1 hash → ((m₀.run before).deliver x).Knows x.1 hash →
        ∀ d ∈ (m₀.run events).sentOn x, d.hash ≠ hash) ∧
      ((m₀.run events).Settled hash → ∀ u,
        ((m₀.run events).Knows u hash ↔ ∃ s, Shared events hash s ∧ m₀.Connected s u) ∧
        ((m₀.run events).Knows u hash →
          ((m₀.run events).node u).store.descriptors.countP (fun d => d.hash = hash) = 1)) := by
  have hf := flooding_run hidle hjoined hz events
  refine ⟨fun x y hxy => hf.taken x y (hf.far_eq ▸ hxy), hf.countP_made_le, ?_, ?_, ?_⟩
  · refine Finset.sum_le_sum fun u _ => ?_
    have hsum := List.sum_le_card_nsmul ((m₀.node u).peers.members.map fun p =>
      ((m₀.run events).sentOn (u, p)).countP fun d => d.hash = hash) 1 fun n hn => by
        obtain ⟨p, -, rfl⟩ := List.mem_map.1 hn
        exact hf.countP_sentOn_le (u, p)
    rwa [List.length_map, Nat.nsmul_eq_mul, Nat.mul_one] at hsum
  · intro before x after hevents hnot hknows d hd
    have hbefore := flooding_run hidle hjoined hz before
    obtain ⟨a, ha, hnode, hsource, hhash⟩ := exists_pending_of_handle hbefore.joined hnot hknows
    have hrun : m₀.run events = ((m₀.run before).deliver x).run after := by
      rw [hevents, run, List.foldl_append]
      rfl
    have hmem := mem_run (List.mem_append_left ((m₀.run before).deliver x).made ha) after
    rw [← hrun] at hmem
    exact hf.hash_ne_of_source hmem hhash hsource hnode hd
  · intro hsettled u
    refine ⟨⟨hf.exists_shares u, fun ⟨s, hs, hpath⟩ => ?_⟩, fun hknows => ?_⟩
    · exact hf.knows_of_connected hsettled hpath (hf.knows_of_shares s hs)
    · exact (hf.joined.valid u).count_descriptors (hf.joined.keyed u) hknows

/-! ### A ring -/

/-- Three new nodes in a ring: the first connection of each leads to the second one of the next. -/
def ring : Mesh (Fin 3) where
  node _ := { Node.new .standard with
    peers := ⟨[.connected default .unlimited, .connected default .unlimited], [0, 1]⟩ }
  far
    | (u, 0) => some (u + 1, 1)
    | (u, 1) => some (u - 1, 0)
    | _ => none
  read _ := 0
  pending := []
  made := []

theorem joined_ring : ring.Joined where
  far_symm
    | (u, 0), y, h => by
      have hback : ∀ u : Fin 3, u + 1 - 1 = u := by decide
      obtain rfl := Option.some.inj h
      exact congrArg (fun v => some (v, 0)) (hback u)
    | (u, 1), y, h => by
      have hback : ∀ u : Fin 3, u - 1 + 1 = u := by decide
      obtain rfl := Option.some.inj h
      exact congrArg (fun v => some (v, 1)) (hback u)
    | (u, _ + 2), y, h => nomatch h
  mem_members_iff
    | (u, 0) => by simp [ring]
    | (u, 1) => by simp [ring]
    | (u, _ + 2) => by simp [ring]
  nodup _ := (by decide : ([0, 1] : List PeerId).Nodup)
  willing _ id hid := by
    simp only [ring, List.mem_cons, List.not_mem_nil, or_false] at hid
    rcases hid with rfl | rfl <;> exact ⟨_, rfl, Sink.willing_unlimited⟩
  limit _ := (by decide : Descriptor.width ≤ Config.standard.maxFrameBytes.toNat)
  valid _ := Store.valid_empty _
  keyed _ := Store.keyed_empty _

/-- A file that is shared at one node of the ring goes around both ways, comes back nowhere, and is
known everywhere in the end. -/
theorem flood_run_ring :
    let d : Descriptor := ⟨"ring.bin", .ofBytes [1], .replicate chunkCount .zero, 512⟩
    let events : List (Event (Fin 3)) := [.share 0 d "ring.bin", .announce 0, .deliver (1, 1),
      .deliver (2, 0), .announce 0, .announce 0, .deliver (2, 1), .deliver (1, 0)]
    ring.Joined ∧ ring.Idle d.hash ∧ d.hash ≠ .zero ∧ (ring.run events).Settled d.hash ∧
      (∀ u, (ring.run events).Knows u d.hash) ∧
      ∑ u, ((ring.node u).peers.members.map fun p =>
        ((ring.run events).sentOn (u, p)).countP fun c => c.hash = d.hash).sum ≤ 6 ∧
      ∀ c ∈ (ring.run events).sentOn (1, 1), c.hash ≠ d.hash := by
  intro d events
  have hidle : ring.Idle d.hash := by
    refine ⟨rfl, rfl, ?_, by decide +kernel⟩
    rintro ⟨u, _ | _ | p⟩ y h
    · obtain rfl := Option.some.inj h
      rfl
    · obtain rfl := Option.some.inj h
      rfl
    · cases h
  have hz : d.hash ≠ .zero := by decide
  have hunread : ∀ u, ∀ p < 2, (ring.run events).unread (u, p) = [] := by decide +kernel
  have hfar (u : Fin 3) (p : PeerId) : (ring.run events).far (u, p + 2) = none := by
    rw [(flooding_run hidle joined_ring hz events).far_eq]
    rfl
  have hsettled : (ring.run events).Settled d.hash := by
    have hpending : (ring.run events).pending = [] := by
      rw [← List.isEmpty_iff]
      decide +kernel
    refine ⟨fun a ha => absurd (hpending ▸ ha) List.not_mem_nil, ?_⟩
    rintro ⟨u, p⟩ c hc
    have hnil : (ring.run events).unread (u, p) = [] := by
      rcases p with _ | _ | p
      · exact hunread u 0 (by decide)
      · exact hunread u 1 (by decide)
      · rw [Mesh.unread, hfar]
    rw [underWay_of_nil hnil] at hc
    cases hc
  obtain ⟨-, -, hcount, hback, hend⟩ := flood_run joined_ring hidle hz events
  refine ⟨joined_ring, hidle, hz, hsettled, fun u => ?_, hcount, ?_⟩
  · refine ((hend hsettled u).1).2 ⟨0, ⟨_, List.mem_cons_self, rfl, rfl, by decide⟩, ?_⟩
    have hnext (v : Fin 3) : ring.Adjacent v (v + 1) := ⟨0, 1, rfl⟩
    have hu : ∀ u : Fin 3, u = 0 ∨ u = 1 ∨ u = 2 := by decide
    rcases hu u with rfl | rfl | rfl
    · exact .refl
    · exact .single (hnext 0)
    · exact (Relation.ReflTransGen.single (hnext 0)).tail (hnext 1)
  · exact hback (events.take 2) (1, 1) (events.drop 3) rfl (by decide +kernel) (by decide +kernel)

end Mesh

end FileMesh
