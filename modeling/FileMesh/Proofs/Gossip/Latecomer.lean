import FileMesh.Proofs.Gossip.Joining
import FileMesh.Proofs.Peer.Sending

/-!
# A peer that joins late misses nothing

A descriptor is stored before it is announced, and a connection is a member before the catalog is
read. So what is stored before the catalog is read is in the catalog, and what is stored later is
announced when the connection is a member. For every descriptor there is then something due to the
connection until it was sent. Each is due twice at most, by its announcement and by the catalog.
-/

namespace FileMesh

/-- A connection that is attached has the next number and is the last member. -/
theorem Node.attach_eq (n : Node) (remote near : SocketAddress) (sink : Sink) :
    (n.attach remote near sink).1 = n.peers.connections.length ∧
      (n.attach remote near sink).2.store = n.store ∧
      (n.attach remote near sink).2.peers =
        ⟨n.peers.connections ++ [.connected remote sink],
          n.peers.members ++ [n.peers.connections.length]⟩ := by
  rw [attach]
  cases near.reachableIp? with
  | none => exact ⟨rfl, rfl, rfl⟩
  | some ip =>
    simp only [noteInterface]
    split <;> exact ⟨rfl, rfl, rfl⟩

namespace Joining

variable {c : Incoming} {s s' : Joining} {p : PeerId} {d : Descriptor} {ds : List Descriptor}

/-! ## What is due -/

/-- The part of the catalog that is still to be sent. Before the catalog is read that is all there
is. -/
def catalog (s : Joining) : List Descriptor :=
  match s.stage with
  | .apart => s.node.store.descriptors
  | .joined => s.node.store.descriptors
  | .told rest => rest
  | .broken => []

/-- What did not come from a connection is to be announced to it. -/
def unannounced (p : PeerId) (owed : List Learned) : List Descriptor :=
  (owed.filter fun l => l.source ≠ some p).map Learned.descriptor

/-- What the announcement that is under way will still write to a connection. -/
def underWay (p : PeerId) : Option FanOut → List Descriptor
  | none => []
  | some f => List.replicate (f.targets.count p) f.descriptor

/-- What is still to be sent to a connection. -/
def due (p : PeerId) (s : Joining) : List Descriptor :=
  s.catalog ++ (unannounced p s.owed ++ underWay p s.active)

theorem due_of_finished (h : s.Finished) : s.due p = [] := by
  simp [due, catalog, unannounced, underWay, h.owed, h.active, h.stage]

/-- Besides what was sent, what is still due: only what is known, nothing more than twice, and
everything but what came from the connection itself. -/
structure Ledger (p : PeerId) (s : Joining) (ds : List Descriptor) : Prop where
  known : ∀ d ∈ ds ++ s.due p, d ∈ s.node.store.descriptors
  twice : ∀ hash, (ds ++ s.due p).countP (·.hash = hash) ≤ 2
  covered : ∀ d ∈ s.node.store.descriptors, d ∈ ds ++ s.due p ∨ ⟨d, some p⟩ ∈ s.learned

/-- What was due may be sent. -/
theorem Ledger.of_perm {ds' : List Descriptor} (h : Ledger p s ds)
    (hstore : s'.node.store = s.node.store) (hlearned : s'.learned = s.learned)
    (hperm : (ds' ++ s'.due p).Perm (ds ++ s.due p)) : Ledger p s' ds' := by
  refine ⟨?_, ?_, ?_⟩
  · intro d hd
    rw [hstore]
    exact h.known d (hperm.mem_iff.1 hd)
  · intro hash
    rw [hperm.countP_eq]
    exact h.twice hash
  · intro d hd
    rw [hstore] at hd
    rw [hlearned, hperm.mem_iff]
    exact h.covered d hd

/-- Before the connection is a member, an announcement may leave it out: the catalog will not. -/
theorem Ledger.of_apart (h : Ledger p s ds) (hstage : s'.stage = .apart)
    (hstore : s'.node.store = s.node.store) (hsub : (s'.due p).Subperm (s.due p)) :
    Ledger p s' ds := by
  have hall : (ds ++ s'.due p).Subperm (ds ++ s.due p) := (List.subperm_append_left ds).2 hsub
  refine ⟨?_, ?_, ?_⟩
  · intro d hd
    rw [hstore]
    exact h.known d (hall.subset hd)
  · intro hash
    exact (hall.countP_le _).trans (h.twice hash)
  · intro d hd
    left
    refine List.mem_append_right _ (List.mem_append_left _ ?_)
    simp only [catalog, hstage]
    exact hd

theorem ledger_start (h : s.node.store.Fit) (howed : s.owed = []) (hactive : s.active = none)
    (hstage : s.stage = .apart) : Ledger p s [] := by
  have hdue : s.due p = s.node.store.descriptors := by
    simp [due, catalog, unannounced, underWay, howed, hactive, hstage]
  refine ⟨?_, ?_, ?_⟩
  · intro d hd
    rwa [hdue, List.nil_append] at hd
  · intro hash
    rw [hdue, List.nil_append]
    exact (h.countP_hash_le_one hash).trans (by decide)
  · intro d hd
    left
    rwa [hdue, List.nil_append]

/-! ### Learning -/

/-- A descriptor that is learned is due by its announcement, unless it came from the connection, and
by the catalog, unless that was read before. -/
theorem due_adopt {e : Entry} {t : Store} {l : Learned} (h : s.node.store.Fit)
    (hi : s.node.store.insert e = .ok t) (hl : l.descriptor = e.descriptor) :
    ∃ new : List Descriptor, ((s.adopt (some t) l).due p).Perm (new ++ s.due p) ∧
      new.length ≤ 2 ∧ (∀ d ∈ new, d = e.descriptor) ∧
        (l.source ≠ some p → e.descriptor ∈ new) := by
  have hcatalog : ∃ new : List Descriptor,
      (s.adopt (some t) l).catalog.Perm (new ++ s.catalog) ∧ new.length ≤ 1 ∧
        ∀ d ∈ new, d = e.descriptor := by
    have hperm := h.valid.perm_descriptors hi
    simp only [adopt, catalog]
    cases s.stage with
    | apart => exact ⟨[e.descriptor], hperm, Nat.le_refl _, by simp⟩
    | joined => exact ⟨[e.descriptor], hperm, Nat.le_refl _, by simp⟩
    | told rest => exact ⟨[], .refl _, Nat.zero_le _, by simp⟩
    | broken => exact ⟨[], .refl _, Nat.zero_le _, by simp⟩
  have howed : (unannounced p (s.adopt (some t) l).owed ++ underWay p s.active).Perm
      ((if l.source ≠ some p then [e.descriptor] else []) ++
        (unannounced p s.owed ++ underWay p s.active)) := by
    simp only [adopt, unannounced, List.filter_append, List.map_append, List.append_assoc]
    refine (List.perm_append_comm_assoc _ _ _).trans ?_
    by_cases hsource : l.source = some p <;> simp [hsource, hl]
  obtain ⟨new, hnew, hlength, heq⟩ := hcatalog
  refine ⟨new ++ if l.source ≠ some p then [e.descriptor] else [], ?_, ?_, ?_, ?_⟩
  · refine (hnew.append howed).trans ?_
    rw [due, List.append_assoc, List.append_assoc]
    exact (List.perm_append_comm_assoc _ _ _).append_left new
  · rw [List.length_append]
    split
    · rw [List.length_singleton]
      omega
    · rw [List.length_nil]
      omega
  · intro d hd
    rcases List.mem_append.1 hd with hd | hd
    · exact heq d hd
    · split at hd
      · exact List.mem_singleton.1 hd
      · cases hd
  · intro hsource
    rw [if_pos hsource]
    simp

theorem Ledger.adopt {e : Entry} {t : Store} {l : Learned} (hl : Ledger p s ds)
    (h : s.node.store.Fit) (hi : s.node.store.insert e = .ok t)
    (hd : l.descriptor = e.descriptor) : Ledger p (s.adopt (some t) l) ds := by
  have hperm : (s.adopt (some t) l).node.store.descriptors.Perm
      (e.descriptor :: s.node.store.descriptors) := h.valid.perm_descriptors hi
  obtain ⟨new, hdue, hlength, heq, hnew⟩ := due_adopt (p := p) h hi hd
  have hall : (ds ++ (s.adopt (some t) l).due p).Perm (new ++ (ds ++ s.due p)) :=
    (hdue.append_left ds).trans (List.perm_append_comm_assoc _ _ _)
  refine ⟨?_, ?_, ?_⟩
  · intro d hmem
    rw [hperm.mem_iff, List.mem_cons]
    rcases List.mem_append.1 (hall.mem_iff.1 hmem) with hmem | hmem
    · exact .inl (heq d hmem)
    · exact .inr (hl.known d hmem)
  · intro hash
    rw [hall.countP_eq, List.countP_append]
    by_cases hhash : e.descriptor.hash = hash
    · -- The hash was not known before, so nothing was sent or due under it.
      have hnone : (ds ++ s.due p).countP (·.hash = hash) = 0 := by
        rw [List.countP_eq_zero]
        intro d hmem
        have hcontains := (h.valid.exists_insert_iff.1 ⟨t, hi⟩).2.2
        rw [← Bool.not_eq_true, h.contains_iff] at hcontains
        intro heqhash
        apply hcontains
        rw [hhash]
        exact List.mem_map.2 ⟨d, hl.known d hmem, of_decide_eq_true heqhash⟩
      have hle := new.countP_le_length (p := fun d => decide (d.hash = hash))
      omega
    · have hnone : new.countP (·.hash = hash) = 0 := by
        rw [List.countP_eq_zero]
        intro d hmem
        rw [heq d hmem]
        simpa using hhash
      rw [hnone, Nat.zero_add]
      exact hl.twice hash
  · intro d hmem
    rw [hall.mem_iff, List.mem_append]
    rcases List.mem_cons.1 (hperm.mem_iff.1 hmem) with rfl | hmem
    · by_cases hsource : l.source = some p
      · right
        have hmem : (⟨e.descriptor, some p⟩ : Learned) = l := by rw [← hd, ← hsource]
        rw [hmem]
        exact List.mem_append_right _ (List.mem_singleton.2 rfl)
      · exact .inl (.inl (hnew hsource))
    · rcases hl.covered d hmem with hmem | hmem
      · exact .inl (.inr hmem)
      · exact .inr (List.mem_append_left _ hmem)

theorem unannounced_perm {k : Nat} {l : Learned} (hl : s.owed[k]? = some l) :
    (unannounced p s.owed).Perm ((if l.source = some p then [] else [l.descriptor]) ++
      unannounced p (s.owed.eraseIdx k)) := by
  obtain ⟨hk, rfl⟩ := List.getElem?_eq_some_iff.1 hl
  have hperm := (List.getElem_cons_eraseIdx_perm hk).symm
  refine ((hperm.filter _).map _).trans ?_
  rw [List.filter_cons, unannounced]
  by_cases hsource : s.owed[k].source = some p <;> simp [hsource]

/-- An announcement that begins. Either the connection is reached, or the descriptor came from it,
or it is no member yet. -/
theorem Ledger.announce (h : Ledger p s ds) {k : Nat} {l : Learned} (hactive : s.active = none)
    (hl : s.owed[k]? = some l) {active : Option FanOut} (hreached : underWay p active =
      if l.source = some p ∨ s.stage = .apart then [] else [l.descriptor]) :
    Ledger p { s with owed := s.owed.eraseIdx k, active } ds := by
  have howed := unannounced_perm (p := p) hl
  have hdue : s.due p = s.catalog ++ unannounced p s.owed := by
    simp [due, underWay, hactive]
  have hdue' : ({ s with owed := s.owed.eraseIdx k, active } : Joining).due p =
      s.catalog ++ (unannounced p (s.owed.eraseIdx k) ++ underWay p active) := rfl
  by_cases hsource : l.source = some p
  · refine h.of_perm rfl rfl (List.Perm.append_left ds ?_)
    rw [if_pos hsource, List.nil_append] at howed
    rw [hdue, hdue', hreached, if_pos (.inl hsource), List.append_nil]
    exact howed.symm.append_left _
  · rw [if_neg hsource] at howed
    by_cases hstage : s.stage = .apart
    · refine h.of_apart hstage rfl ?_
      rw [hdue, hdue', hreached, if_pos (.inr hstage), List.append_nil]
      have hsub : (unannounced p (s.owed.eraseIdx k)).Subperm (unannounced p s.owed) :=
        (List.sublist_append_right _ _).subperm.trans howed.symm.subperm
      exact (List.subperm_append_left _).2 hsub
    · refine h.of_perm rfl rfl (List.Perm.append_left ds ?_)
      rw [hdue, hdue', hreached, if_neg (not_or.2 ⟨hsource, hstage⟩)]
      exact (List.perm_append_comm.trans howed.symm).append_left _

/-! ## What holds of the connection -/

/-- The store is fit, the announcement under way is encoded, and once the connection is a member it
is one member and took the frames of the descriptors that were sent to it. -/
structure Sound (c : Incoming) (p : PeerId) (s : Joining) (ds : List Descriptor) : Prop where
  joiner : s.joiner = p
  fit : s.node.store.Fit
  active : ∀ f, s.active = some f →
    (Message.fileDef f.descriptor).encode = .ok f.payload ∧ p ∉ f.failed
  stage_ne : s.stage ≠ .broken
  apart : s.stage = .apart →
    s.node.peers.connections.length = p ∧ p ∉ s.node.peers.members ∧ ds = []
  joined : s.stage ≠ .apart → p ∈ s.node.peers.members ∧ ∃ q, s.node.peers.peer? p = some q ∧
    q.sink.taken = c.sink.taken ++ ds.flatMap Descriptor.frame
  count_members : s.node.peers.members.count p ≤ 1

namespace Sound

/-- What leaves the connection alone. -/
theorem spared (h : Sound c p s ds) {peers : PeerSet}
    (hlength : peers.connections.length = s.node.peers.connections.length)
    (hpeer : peers.peer? p = s.node.peers.peer? p)
    (hcount : peers.members.count p = s.node.peers.members.count p) :
    Sound c p (s.withPeers peers) ds := by
  have hmem : p ∈ peers.members ↔ p ∈ s.node.peers.members := by
    rw [← List.count_pos_iff, hcount, List.count_pos_iff]
  exact { h with
    apart := by
      intro hstage
      obtain ⟨hlen, hmember, hds⟩ := h.apart hstage
      exact ⟨hlength.trans hlen, hmem.not.2 hmember, hds⟩
    joined := by
      intro hstage
      obtain ⟨hmember, q, hq, htaken⟩ := h.joined hstage
      exact ⟨hmem.2 hmember, q, hpeer.trans hq, htaken⟩
    count_members := hcount.trans_le h.count_members }

/-- Writing a descriptor to the connection. There is none before it is a member. -/
theorem sent (h : Sound c p s ds) {peers : PeerSet} {q : Peer}
    (hq : s.node.peers.peer? p = some q) (hq' : peers.peer? p = some (q.push d.frame))
    (hmembers : peers.members = s.node.peers.members) :
    Sound c p (s.withPeers peers) (ds ++ [d]) := by
  have hstage : s.stage ≠ .apart := by
    intro hstage
    rw [PeerSet.peer?_eq_none_of_length (h.apart hstage).1] at hq
    cases hq
  obtain ⟨hmember, q₁, hq₁, htaken⟩ := h.joined hstage
  obtain rfl : q₁ = q := Option.some.inj (hq₁.symm.trans hq)
  exact { h with
    apart := fun happart => absurd happart hstage
    joined := by
      intro _
      refine ⟨hmembers ▸ hmember, _, hq', ?_⟩
      rw [List.flatMap_append, List.flatMap_singleton, ← List.append_assoc, ← htaken]
      rfl
    count_members := (congrArg (List.count p) hmembers).trans_le h.count_members }

/-- An announcement that begins will reach the connection just if it is a member and the descriptor
did not come from it. -/
theorem underWay_fanOut (h : Sound c p s ds) (l : Learned) (payload : Bytes) :
    underWay p (some (s.fanOut l payload)) =
      if l.source = some p ∨ s.stage = .apart then [] else [l.descriptor] := by
  rw [underWay, fanOut]
  by_cases hsource : l.source = some p
  · have hcount : (s.node.peers.members.filter fun id => some id != l.source).count p = 0 := by
      rw [List.count_eq_zero, hsource]
      simp
    rw [hcount, if_pos (.inl hsource)]
    rfl
  · rw [List.count_filter (by simpa using Ne.symm hsource)]
    by_cases hstage : s.stage = .apart
    · rw [List.count_eq_zero.2 (h.apart hstage).2.1, if_pos (.inr hstage)]
      rfl
    · have hpos := List.count_pos_iff.2 (h.joined hstage).1
      have hone : s.node.peers.members.count p = 1 := by
        have hle := h.count_members
        omega
      rw [hone, if_neg (not_or.2 ⟨hsource, hstage⟩)]
      rfl

end Sound

/-- Both invariants. -/
structure Invariant (c : Incoming) (p : PeerId) (s : Joining) (ds : List Descriptor) : Prop where
  sound : Sound c p s ds
  ledger : Ledger p s ds

namespace Invariant

theorem adopt (h : Invariant c p s ds) {e : Entry} {t : Store} {l : Learned}
    (hi : s.node.store.insert e = .ok t) (hl : l.descriptor = e.descriptor) :
    Invariant c p (s.adopt (some t) l) ds where
  sound := { h.sound with fit := h.sound.fit.insert hi }
  ledger := h.ledger.adopt h.sound.fit hi hl

/-- Learning a descriptor, from wherever. -/
theorem learn (h : Invariant c p s ds) (e : Entry) {l : Learned}
    (hl : l.descriptor = e.descriptor) :
    Invariant c p (s.adopt (s.node.store.insert e).toOption l) ds := by
  cases hi : s.node.store.insert e with
  | error cause => exact h
  | ok t => exact h.adopt hi hl

/-- An announcement that begins. -/
theorem announce (h : Invariant c p s ds) (k : Nat) : Invariant c p (s.announce k) ds := by
  cases hactive : s.active with
  | some f =>
    rw [announce_of_active hactive]
    exact h
  | none =>
    cases hl : s.owed[k]? with
    | none =>
      rw [announce_of_none hl]
      exact h
    | some l =>
      cases hencode : (Message.fileDef l.descriptor).encode with
      | error cause =>
        have hannounce : s.announce k = { s with owed := s.owed.eraseIdx k, active := none } := by
          simp only [Joining.announce, hactive, hl, hencode]
        rw [hannounce]
        refine ⟨{ h.sound with active := fun f hf => by cases hf }, h.ledger.announce hactive hl ?_⟩
        -- What is due to the connection is known, so it can be encoded.
        have hsource : l.source = some p := by
          by_contra hsource
          have hmem : l.descriptor ∈ unannounced p s.owed := by
            rw [(unannounced_perm hl).mem_iff, if_neg hsource]
            exact List.mem_cons_self
          have hknown := h.ledger.known l.descriptor (by simp [due, hmem])
          obtain ⟨payload, hpayload, -⟩ :=
            Descriptor.exists_encode (h.sound.fit.nameLength_le _ hknown)
          rw [hencode] at hpayload
          cases hpayload
        rw [if_pos (.inl hsource)]
        rfl
      | ok payload =>
        have hannounce : s.announce k =
            { s with owed := s.owed.eraseIdx k, active := some (s.fanOut l payload) } := by
          simp only [Joining.announce, hactive, hl, hencode]
        rw [hannounce]
        refine ⟨?_, h.ledger.announce hactive hl (h.sound.underWay_fanOut l payload)⟩
        exact { h.sound with
          active := fun f hf => by cases hf; exact ⟨hencode, List.not_mem_nil⟩ }

/-- The catalog is read. What is due by the catalog is what is in the store. -/
theorem list (h : Invariant c p s ds) : Invariant c p s.list ds := by
  rw [Joining.list]
  split
  · rename_i hstage
    refine ⟨?_, ?_⟩
    · exact { h.sound with
        stage_ne := by simp
        apart := by simp
        joined := fun _ => h.sound.joined (by simp [hstage]) }
    · refine h.ledger.of_perm rfl rfl ?_
      simp only [due, catalog, hstage]
      exact .refl _
  · exact h

/-- The last step of an announcement removes others only. -/
theorem push_nil (h : Invariant c p s ds) {payload : Bytes} {failed : List PeerId}
    (hactive : s.active = some ⟨d, payload, [], failed⟩) : Invariant c p s.push ds := by
  have hnot : p ∉ failed := (h.sound.active _ hactive).2
  have hpeer := s.node.peers.peer?_dropAll failed p
  rw [if_neg hnot] at hpeer
  have hcount : (s.node.peers.dropAll failed).members.count p = s.node.peers.members.count p := by
    rw [PeerSet.members_dropAll, List.count_filter (by simpa using hnot)]
  rw [push_of_nil hactive]
  refine ⟨?_, ?_⟩
  · exact { h.sound.spared (PeerSet.length_dropAll _ _) hpeer hcount with
      active := fun f hf => by cases hf }
  · refine h.ledger.of_perm rfl rfl (List.Perm.append_left ds ?_)
    simp only [due, hactive, underWay, List.count_nil, List.replicate_zero]
    exact .refl _

/-- Writing to another member does not concern the connection. -/
theorem push_of_ne (h : Invariant c p s ds) {payload : Bytes} {id : PeerId}
    {rest failed failed' lost : List PeerId} {result : Except IoError Unit} {peers : PeerSet}
    (hactive : s.active = some ⟨d, payload, id :: rest, failed⟩)
    (hsend : s.node.peers.sendFrame id .fileDef payload = (result, peers)) (hne : id ≠ p)
    (hfailed : p ∉ failed') : Invariant c p
      { s.withPeers peers with active := some ⟨d, payload, rest, failed'⟩, lost } ds := by
  have hpeer := s.node.peers.peer?_sendFrame id p .fileDef payload
  have hmembers := s.node.peers.members_sendFrame id .fileDef payload
  have hlength := s.node.peers.length_sendFrame id .fileDef payload
  rw [hsend] at hpeer hmembers hlength
  rw [if_neg hne] at hpeer
  have hpayload : (Message.fileDef d).encode = .ok payload := (h.sound.active _ hactive).1
  refine ⟨?_, ?_⟩
  · exact { h.sound.spared hlength hpeer (congrArg (List.count p) hmembers) with
      active := fun f hf => by cases hf; exact ⟨hpayload, hfailed⟩ }
  · refine h.ledger.of_perm rfl rfl (List.Perm.append_left ds ?_)
    simp only [due, hactive, underWay, List.count_cons_of_ne hne]
    exact .refl _

/-- Writing to the connection sends what was due to it. -/
theorem push_self (h : Invariant c p s ds) {payload : Bytes} {rest failed : List PeerId}
    {peers : PeerSet} (hactive : s.active = some ⟨d, payload, p :: rest, failed⟩)
    (hsend : s.node.peers.sendFrame p .fileDef payload = (.ok (), peers)) : Invariant c p
      { s.withPeers peers with active := some ⟨d, payload, rest, failed⟩ } (ds ++ [d]) := by
  obtain ⟨q, hq, hq'⟩ := PeerSet.peer?_of_sendFrame hsend
  have hmembers := s.node.peers.members_sendFrame p .fileDef payload
  rw [hsend] at hmembers
  obtain ⟨hpayload, hfailed⟩ : (Message.fileDef d).encode = .ok payload ∧ p ∉ failed :=
    h.sound.active _ hactive
  have hframe : FrameHeader.frame .fileDef payload = d.frame :=
    (Message.frame_of_encode hpayload).symm
  rw [hframe] at hq'
  refine ⟨?_, ?_⟩
  · exact { h.sound.sent hq hq' hmembers with
      active := fun f hf => by cases hf; exact ⟨hpayload, hfailed⟩ }
  · refine h.ledger.of_perm rfl rfl ?_
    simp only [due, hactive, underWay, List.count_cons_self, List.replicate_succ]
    rw [List.perm_iff_count]
    intro a
    simp only [withPeers, catalog, List.count_append, List.count_cons, List.count_nil]
    omega

/-- An announcement goes on. -/
theorem push (h : Invariant c p s ds) (hlost : p ∉ s.push.lost) :
    ∃ ds', Invariant c p s.push ds' := by
  cases hactive : s.active with
  | none =>
    rw [push_of_none hactive]
    exact ⟨ds, h⟩
  | some f =>
    obtain ⟨d, payload, targets, failed⟩ := f
    cases targets with
    | nil => exact ⟨ds, h.push_nil hactive⟩
    | cons id rest =>
      cases hsend : s.node.peers.sendFrame id .fileDef payload with
      | mk result peers =>
        cases result with
        | error cause =>
          rw [push_of_error hactive hsend] at hlost ⊢
          have hne : id ≠ p := by
            rintro rfl
            exact hlost (List.mem_append_right _ (List.mem_singleton.2 rfl))
          refine ⟨ds, h.push_of_ne hactive hsend hne ?_⟩
          intro hmem
          rcases List.mem_append.1 hmem with hmem | hmem
          · exact (h.sound.active _ hactive).2 hmem
          · exact hne (List.mem_singleton.1 hmem).symm
        | ok =>
          rw [push_of_ok hactive hsend]
          by_cases hid : id = p
          · subst hid
            exact ⟨_, h.push_self hactive hsend⟩
          · exact ⟨ds, h.push_of_ne hactive hsend hid (h.sound.active _ hactive).2⟩

/-- The connection becomes a member. What was due by the catalog still is. -/
theorem attach (h : Invariant c p s ds) : Invariant c p (s.attach c) ds := by
  rw [Joining.attach]
  split
  · rename_i hstage hactive
    obtain ⟨hlength, hmember, rfl⟩ := h.sound.apart hstage
    obtain ⟨hid, hstore, hpeers⟩ := s.node.attach_eq c.remote c.near c.sink
    refine ⟨?_, ?_⟩
    · exact { h.sound with
        joiner := hid.trans hlength
        fit := by
          rw [hstore]
          exact h.sound.fit
        stage_ne := by simp
        apart := by simp
        joined := by
          intro _
          rw [hpeers, hlength, PeerSet.peer?, ← hlength]
          refine ⟨by simp, .connected c.remote c.sink, by simp, by simp [Peer.connected]⟩
        count_members := by
          rw [hpeers, hlength, List.count_append, List.count_eq_zero.2 hmember,
            List.count_singleton_self] }
    · refine h.ledger.of_perm hstore rfl ?_
      simp only [due, catalog, hstage, hstore]
      exact .refl _
  · exact h

/-- Sending a descriptor of the catalog. -/
theorem greet_told (h : Invariant c p s ds) {rest : List Descriptor} {peers : PeerSet}
    {payload : Bytes} (hstage : s.stage = .told (d :: rest))
    (hpayload : (Message.fileDef d).encode = .ok payload)
    (hsend : s.node.peers.send s.joiner (.fileDef d) = (.ok (), peers)) :
    Invariant c p { s.withPeers peers with stage := .told rest } (ds ++ [d]) := by
  have hmembers := s.node.peers.members_send s.joiner (.fileDef d)
  rw [hsend] at hmembers
  obtain ⟨q, hq, hq'⟩ := PeerSet.peer?_of_send hpayload hsend
  rw [h.sound.joiner] at hq hq'
  have hsent := h.sound.sent hq hq' hmembers
  refine ⟨?_, ?_⟩
  · exact { hsent with
      stage_ne := by simp
      apart := by simp
      joined := fun _ => hsent.joined (by simp [withPeers, hstage]) }
  · refine h.ledger.of_perm rfl rfl ?_
    rw [List.append_assoc]
    simp only [due, catalog, hstage]
    exact .refl _

/-- The sending of the catalog goes on. What is in the catalog can be encoded, so nothing of it is
left out. -/
theorem greet (h : Invariant c p s ds) (hlost : p ∉ s.greet.lost) :
    ∃ ds', Invariant c p s.greet ds' := by
  by_cases hnext : ∃ d rest, s.stage = .told (d :: rest)
  · obtain ⟨d, rest, hstage⟩ := hnext
    have hknown := h.ledger.known d (by simp [due, catalog, hstage])
    obtain ⟨payload, hpayload, -⟩ :=
      Descriptor.exists_encode (h.sound.fit.nameLength_le d hknown)
    cases hsend : s.node.peers.send s.joiner (.fileDef d) with
    | mk result peers =>
      simp only [Joining.greet, hstage, hsend] at hlost ⊢
      cases result with
      | ok => exact ⟨_, h.greet_told hstage hpayload hsend⟩
      | error cause =>
        cases cause with
        | protocol cause =>
          exact absurd (congrArg Prod.fst hsend) (PeerSet.send_ne_protocol hpayload)
        | closed => exact absurd (by simp [h.sound.joiner]) hlost
        | transport cause => exact absurd (by simp [h.sound.joiner]) hlost
  · rw [greet_eq_self fun d rest hstage => hnext ⟨d, rest, hstage⟩]
    exact ⟨ds, h⟩

end Invariant

/-! ## Runs -/

/-- A connection to which sending failed stays one. -/
theorem mem_lost_step (c : Incoming) (event : Event) (h : p ∈ s.lost) :
    p ∈ (step c s event).lost := by
  have hadopt (store : Option Store) (l : Learned) : p ∈ (s.adopt store l).lost := by
    cases store <;> exact h
  cases event with
  | share d path => exact hadopt _ _
  | hear d source => exact hadopt _ _
  | announce k =>
    rw [step, announce]
    split <;> exact h
  | push =>
    rw [step, push]
    split
    · exact h
    · exact h
    · split
      · exact h
      · exact List.mem_append_left _ h
  | attach =>
    rw [step, attach]
    split <;> exact h
  | list =>
    rw [step, list]
    split <;> exact h
  | greet =>
    rw [step, greet]
    split
    · split
      · exact h
      · exact h
      · exact List.mem_append_left _ h
    · exact h
  | leave =>
    rw [step, leave]
    split <;> exact h

theorem mem_lost_run (c : Incoming) (events : List Event) (h : p ∈ s.lost) :
    p ∈ (run c s events).lost := by
  induction events generalizing s with
  | nil => exact h
  | cons event events ih => exact ih (mem_lost_step c event h)

/-- Both invariants are kept by every step that does not fail to send to the connection. -/
theorem exists_step (h : Invariant c p s ds) (event : Event) (hlost : p ∉ (step c s event).lost) :
    ∃ ds', Invariant c p (step c s event) ds' := by
  cases event with
  | share d path => exact ⟨ds, h.learn (.ofFile d path) rfl⟩
  | hear d source =>
    exact ⟨ds, h.learn (.ofPeer d (Path.join s.node.store.downloadDir (Store.fileName d))) rfl⟩
  | announce k => exact ⟨ds, h.announce k⟩
  | push => exact h.push hlost
  | attach => exact ⟨ds, h.attach⟩
  | list => exact ⟨ds, h.list⟩
  | greet => exact h.greet hlost
  | leave =>
    rw [step, leave_eq_self h.sound.stage_ne]
    exact ⟨ds, h⟩

/-- So they are by any number of steps. -/
theorem exists_run (h : Invariant c p s ds) (events : List Event)
    (hlost : p ∉ (run c s events).lost) : ∃ ds', Invariant c p (run c s events) ds' := by
  induction events generalizing s ds with
  | nil => exact ⟨ds, h⟩
  | cons event events ih =>
    have hstep : p ∉ (step c s event).lost := fun hmem => hlost (mem_lost_run c events hmem)
    obtain ⟨ds₁, h₁⟩ := exists_step h event hstep
    exact ih h₁ hlost

/-- They hold of a node to which a connection with a fresh number comes. -/
theorem invariant_start {n : Node} (hstore : n.store.Fit)
    (hfresh : n.peers.connections.length ∉ n.peers.members) :
    Invariant c n.peers.connections.length (start n) [] where
  sound :=
    { joiner := rfl
      fit := hstore
      active := fun f hf => by cases hf
      stage_ne := by simp [start]
      apart := fun _ => ⟨rfl, hfresh, rfl⟩
      joined := fun h => absurd rfl h
      count_members := (Nat.le_of_eq (List.count_eq_zero.2 hfresh)).trans (Nat.zero_le 1) }
  ledger := ledger_start hstore rfl rfl rfl

/-- A connection comes while a node learns descriptors, in whatever order the steps are taken. If
sending to it never fails, then, once nothing is left to be done, it is a member, and what was
written to it are whole frames, of descriptors. Among these is every descriptor in the store that
did not come from the connection itself, and no hash is among them more than twice. -/
theorem joiner_is_told (c : Incoming) (n : Node) (events : List Event) (hstore : n.store.Fit)
    (hfresh : n.peers.connections.length ∉ n.peers.members)
    (hdone : (run c (start n) events).Finished)
    (hsent : n.peers.connections.length ∉ (run c (start n) events).lost) :
    let p := n.peers.connections.length
    let s := run c (start n) events
    ∃ (q : Peer) (ds : List Descriptor), s.node.peers.peer? p = some q ∧
      p ∈ s.node.peers.members ∧ q.sink.taken = c.sink.taken ++ ds.flatMap Descriptor.frame ∧
      (∀ d ∈ s.node.store.descriptors, d ∈ ds ∨ ⟨d, some p⟩ ∈ s.learned) ∧
      (∀ d ∈ ds, d ∈ s.node.store.descriptors) ∧
      ∀ hash, ds.countP (·.hash = hash) ≤ 2 := by
  intro p s
  obtain ⟨ds, hsound, hledger⟩ := exists_run (c := c) (invariant_start hstore hfresh) events hsent
  obtain ⟨hmember, q, hq, htaken⟩ := hsound.joined (by simp [hdone.stage])
  have hdue : ds ++ s.due p = ds := by
    rw [due_of_finished hdone, List.append_nil]
  refine ⟨q, ds, hq, hmember, htaken, ?_, ?_, ?_⟩
  · intro d hd
    have hcovered := hledger.covered d hd
    rwa [hdue] at hcovered
  · intro d hd
    exact hledger.known d (List.mem_append_left _ hd)
  · intro hash
    have htwice := hledger.twice hash
    rwa [hdue] at htwice

/-- A file is announced while a connection is told the catalog, and is sent to it by both. In
between the connection sends a descriptor of its own. -/
theorem joiner_is_told_during_announcement :
    let a : Descriptor := ⟨"a.bin", .ofBytes [1], .replicate chunkCount .zero, 512⟩
    let b : Descriptor := ⟨"b.bin", .ofBytes [2], .replicate chunkCount .zero, 512⟩
    let c : Incoming := ⟨default, default, .unlimited⟩
    let events : List Event := [.share a "a.bin", .attach, .announce 0, .hear b 0, .list, .greet,
      .push, .greet, .push, .announce 0, .push]
    ∃ s, run c (start (.new .standard)) events = s ∧ s.Finished ∧ s.lost = [] ∧
      ∃ (q : Peer) (ds : List Descriptor), s.node.peers.peer? 0 = some q ∧
        q.sink.taken = [a, a, b].flatMap Descriptor.frame ∧
          q.sink.taken = ds.flatMap Descriptor.frame ∧ a ∈ ds ∧
            ds.countP (·.hash = a.hash) ≤ 2 := by
  intro a b c events
  have hdone : (run c (start (.new .standard)) events).Finished :=
    ⟨by decide +kernel, by decide +kernel, by decide +kernel⟩
  have hlost : (run c (start (.new .standard)) events).lost = [] := by decide +kernel
  have hsent : 0 ∉ (run c (start (.new .standard)) events).lost := by
    rw [hlost]
    exact List.not_mem_nil
  have htook : ((run c (start (.new .standard)) events).node.peers.peer? 0).map (·.sink.taken) =
      some ([a, a, b].flatMap Descriptor.frame) := by decide +kernel
  obtain ⟨q, ds, hq, -, htaken, htold, -, htwice⟩ := joiner_is_told c (.new .standard) events
    (Store.fit_empty _) List.not_mem_nil hdone hsent
  have hzero : (Node.new .standard).peers.connections.length = 0 := rfl
  rw [hzero] at hq
  rw [hq] at htook
  have hmem : a ∈ ds := (htold a (by decide +kernel)).resolve_right (by decide +kernel)
  exact ⟨_, rfl, hdone, hlost, q, ds, hq, Option.some.inj htook, htaken, hmem, htwice a.hash⟩

end Joining

end FileMesh
