import FileMesh.Proofs.Stopping.Interleaving
import Mathlib.Data.List.Induction

/-!
# Who is missed when a node stops

Stopping a node is meant to end everything it does. The signal ends every download that listens when
it is sent, and removing those that were listed ends every connection that was a member by then. A
download that begins after the signal listens for nothing that will come, and a connection that
becomes a peer after the members were listed is neither told nor removed. These and only these are
still there when stopping is over and nothing is left to be done but to wait.
-/

namespace FileMesh.Stopping

variable {network : Network} {s s' : Stopping} {event : Event} {events : List Event} {id : PeerId}
  {i : Nat} {c : Incoming}

/-! ## Late ones -/

/-- The download began after the signal was sent. -/
def BeganLate (network : Network) (s : Stopping) (events : List Event) (i : Nat) : Prop :=
  ∃ before after, events = before ++ .begin i :: after ∧
    (run network s before).phase ≠ .running ∧ (run network s before).node.Spawned i

/-- The members were listed already. -/
def HasListed (s : Stopping) : Prop := s.phase ≠ .running ∧ s.phase ≠ .signalled

/-- This connection became a peer, with this number, after the members were listed. -/
def JoinedLate (network : Network) (s : Stopping) (events : List Event) (c : Incoming)
    (id : PeerId) : Prop :=
  ∃ before after, events = before ++ .attach c :: after ∧
    (run network s before).HasListed ∧
    id = (run network s before).node.peers.connections.length

/-- Every download waits and was not told to stop, or has ended. Every connection is open and read
and its reading was not told to stop, or its reading has ended. -/
structure Settled (s : Stopping) : Prop where
  downloads : ∀ d ∈ s.node.downloads,
    (∃ ep, d.stage = .waiting ep false) ∨ ∃ outcome, d.stage = .finished outcome
  readers : ∀ r ∈ s.node.readers,
    r.stage = .reading false ∧ s.node.isClosed r.peer = false ∨ r.stage = .finished

theorem BeganLate.concat (h : BeganLate network s events i) (event : Event) :
    BeganLate network s (events ++ [event]) i := by
  obtain ⟨before, after, rfl, hlate⟩ := h
  exact ⟨before, after ++ [event], by simp, hlate⟩

theorem JoinedLate.concat (h : JoinedLate network s events c id) (event : Event) :
    JoinedLate network s (events ++ [event]) c id := by
  obtain ⟨before, after, rfl, hlate⟩ := h
  exact ⟨before, after ++ [event], by simp, hlate⟩

/-! ## Downloads -/

/-- After the signal a download comes to listen only by beginning. -/
theorem untold_change (hc : Change network s event s') (hphase : s'.phase ≠ .running)
    (h : s'.node.Untold i) :
    s.phase ≠ .running ∧ (s.node.Untold i ∨ event = .begin i ∧ s.node.Spawned i) := by
  cases hc with
  | signals _ =>
    -- Whatever listens now was told.
    obtain ⟨d, hd, hstage⟩ := h
    have hmem : d ∈ s.node.downloads.map fun d => { d with stage := d.stage.signal } :=
      List.mem_of_getElem? hd
    obtain ⟨d, -, rfl⟩ := List.mem_map.1 hmem
    exact absurd hstage d.stage.not_untold_signal
  | lists hsignalled => exact ⟨by simp [hsignalled], .inl h⟩
  | removes hremoving => exact ⟨by simp [hremoving], .inl h⟩
  | saves hremoving => exact ⟨by simp [hremoving], .inl h⟩
  | attaches c =>
    obtain ⟨-, hdownloads⟩ := s.node.readers_attach c.remote c.near c.sink
    rw [Node.Untold, hdownloads] at h
    exact ⟨hphase, .inl h⟩
  | @begins j hj =>
    refine ⟨hphase, ?_⟩
    obtain ⟨hash, stage, registered, hd, -, hbegin⟩ := Node.beginDownload_of_spawned hj network
    obtain ⟨d, hd', hstage⟩ := h
    have hset : (s.node.setStage j stage).downloads[i]? = some d := by rwa [hbegin] at hd'
    rw [Node.downloads_setStage hd] at hset
    split at hset
    · rename_i hij
      exact .inr ⟨hij ▸ rfl, hij ▸ hj⟩
    · exact .inl ⟨d, hset, hstage⟩
  | reads _ => exact ⟨hphase, .inl h⟩
  | ends _ => exact ⟨hphase, .inl h⟩
  | continues hn => exact ⟨hphase, .inl (hn.untold i h)⟩

/-- A download that listens after the signal and was not told to stop began late. -/
theorem began_of_untold (hs : s.phase = .running) (hphase : (run network s events).phase ≠ .running)
    (h : (run network s events).node.Untold i) : BeganLate network s events i := by
  induction events using List.reverseRecOn with
  | nil => exact absurd hs hphase
  | append_singleton events event ih =>
    rw [run_concat] at hphase h
    obtain ⟨hbefore, huntold | ⟨rfl, hspawned⟩⟩ :=
      untold_change (change_step network _ event) hphase h
    · exact (ih hbefore huntold).concat event
    · exact ⟨events, [], rfl, hbefore, hspawned⟩

/-- After the signal no download is told to stop any more. -/
theorem unstopped_change (hc : Change network s event s') (hphase : s.phase ≠ .running)
    (h : s.node.Unstopped i) : s'.phase ≠ .running ∧ s'.node.Unstopped i := by
  cases hc with
  | signals hrunning => exact absurd hrunning hphase
  | lists _ => exact ⟨by simp, h⟩
  | removes _ => exact ⟨by simp, h⟩
  | saves _ => exact ⟨by simp, h⟩
  | attaches c =>
    obtain ⟨-, hdownloads⟩ := s.node.readers_attach c.remote c.near c.sink
    rw [Node.Unstopped, ← hdownloads] at h
    exact ⟨hphase, h⟩
  | @begins j hj =>
    refine ⟨hphase, ?_⟩
    obtain ⟨hash, stage, registered, hd, hstage, hbegin⟩ := Node.beginDownload_of_spawned hj network
    obtain ⟨d, hd', hdstage⟩ := h
    have hset := Node.downloads_setStage hd stage i
    rw [hbegin]
    by_cases hij : i = j
    · exact ⟨_, hset.trans (if_pos hij), hstage⟩
    · exact ⟨d, (hset.trans (if_neg hij)).trans hd', hdstage⟩
  | reads _ => exact ⟨hphase, h⟩
  | ends _ => exact ⟨hphase, h⟩
  | continues hn => exact ⟨hphase, hn.unstopped i h⟩

theorem unstopped_run (hphase : s.phase ≠ .running) (h : s.node.Unstopped i)
    (events : List Event) : (run network s events).node.Unstopped i := by
  induction events generalizing s with
  | nil => exact h
  | cons event events ih =>
    obtain ⟨hphase', h'⟩ := unstopped_change (change_step network s event) hphase h
    exact ih hphase' h'

/-- A download that began late is never stopped. -/
theorem unstopped_of_beganLate (h : BeganLate network s events i) :
    (run network s events).node.Unstopped i := by
  obtain ⟨before, after, rfl, hphase, hspawned⟩ := h
  obtain ⟨hash, stage, registered, hd, hstage, hbegin⟩ :=
    Node.beginDownload_of_spawned hspawned network
  have hbegun : ((run network s before).node.beginDownload network i).Unstopped i := by
    rw [hbegin]
    exact ⟨_, (Node.downloads_setStage hd stage i).trans (if_pos rfl), hstage⟩
  rw [run_append, run_cons]
  exact unstopped_run (s := step network (run network s before) (.begin i)) hphase hbegun after

/-! ## Connections -/

/-- After the members were listed, whoever is a member and is not to be removed has just become one
or was in the same situation before. -/
theorem unlisted_change (h : s.Sound) (hc : Change network s event s') (hlisted : s'.HasListed)
    (hid : id ∈ s'.node.peers.members) (hrest : id ∉ s'.rest) :
    s.HasListed ∧ (id ∈ s.node.peers.members ∧ id ∉ s.rest ∨
      ∃ c, event = .attach c ∧ id = s.node.peers.connections.length) := by
  cases hc with
  | signals _ => exact absurd rfl hlisted.2
  | lists _ => exact absurd hid hrest
  | @removes k rest hremoving =>
    have hall : s.rest = k :: rest := by rw [Stopping.rest, hremoving]
    have hne : id ≠ k := by
      rintro rfl
      exact PeerSet.not_mem_remove h.node.nodup id hid
    refine ⟨by simp [HasListed, hremoving], .inl ⟨(h.node.releases_drop k).members hid, ?_⟩⟩
    rw [hall, List.mem_cons, not_or]
    exact ⟨hne, hrest⟩
  | saves hremoving =>
    have hall : s.rest = [] := by rw [Stopping.rest, hremoving]
    exact ⟨by simp [HasListed, hremoving], .inl ⟨hid, by simp [hall]⟩⟩
  | attaches c =>
    obtain ⟨-, -, hpeers⟩ := s.node.attach_eq c.remote c.near c.sink
    refine ⟨hlisted, ?_⟩
    rw [hpeers] at hid
    rcases List.mem_append.1 hid with hid | hid
    · exact .inl ⟨hid, hrest⟩
    · exact .inr ⟨c, rfl, List.mem_singleton.1 hid⟩
  | @begins i _ =>
    rw [(s.node.peers_beginDownload network i).1] at hid
    exact ⟨hlisted, .inl ⟨hid, hrest⟩⟩
  | reads _ => exact ⟨hlisted, .inl ⟨hid, hrest⟩⟩
  | @ends _ k _ =>
    exact ⟨hlisted, .inl ⟨(h.node.releases_drop k).members hid, hrest⟩⟩
  | continues hn => exact ⟨hlisted, .inl ⟨(hn.releases h.node.nodup).members hid, hrest⟩⟩

/-- After the members were listed, whoever is a member and is not to be removed joined late. -/
theorem joined_of_member (h : s.Sound) (hs : s.phase = .running)
    (hlisted : (run network s events).HasListed)
    (hid : id ∈ (run network s events).node.peers.members)
    (hrest : id ∉ (run network s events).rest) : ∃ c, JoinedLate network s events c id := by
  induction events using List.reverseRecOn with
  | nil => exact absurd hs hlisted.1
  | append_singleton events event ih =>
    rw [run_concat] at hlisted hid hrest
    obtain ⟨hbefore, ⟨hmember, hapart⟩ | ⟨c, rfl, hnew⟩⟩ :=
      unlisted_change (sound_run h events) (change_step network _ event) hlisted hid hrest
    · obtain ⟨c, hjoined⟩ := ih hbefore hmember hapart
      exact ⟨c, hjoined.concat event⟩
    · exact ⟨c, events, [], rfl, hbefore, hnew⟩

/-- A healthy member that nothing ends any more: the members were listed without it, and its reading
was not told to stop. -/
structure Stays (s : Stopping) (id : PeerId) : Prop where
  healthy : s.node.peers.Healthy id
  untold : ⟨id, .reading true⟩ ∉ s.node.readers
  listed : s.HasListed
  apart : id ∉ s.rest

theorem mem_setReader {n : Node} {k : PeerId} {stage stage' : ReaderStage}
    (h : ⟨id, stage'⟩ ∈ (n.setReader k stage).readers) :
    stage' = stage ∨ ⟨id, stage'⟩ ∈ n.readers := by
  obtain ⟨r, hr, heq⟩ := List.mem_map.1 h
  split at heq
  · exact .inl (congrArg ConnectionReader.stage heq).symm
  · exact .inr (heq ▸ hr)

/-- Such a member stays unless it ends at the other end. -/
theorem stays_change (h : s.Sound) (hs : s.Stays id) (hc : Change network s event s')
    (hne : event ≠ .hangUp id) : s'.Stays id := by
  cases hc with
  | signals hrunning => exact absurd hrunning hs.listed.1
  | lists hsignalled => exact absurd hsignalled hs.listed.2
  | @removes k rest hremoving =>
    -- Another one is removed.
    have hapart := hs.apart
    rw [Stopping.rest, hremoving, List.mem_cons, not_or] at hapart
    exact ⟨hs.healthy.remove_of_ne (Ne.symm hapart.1), hs.untold, by simp [HasListed], hapart.2⟩
  | saves _ => exact ⟨hs.healthy, hs.untold, by simp [HasListed], List.not_mem_nil⟩
  | attaches c =>
    obtain ⟨-, -, hpeers⟩ := s.node.attach_eq c.remote c.near c.sink
    obtain ⟨hreaders, -⟩ := s.node.readers_attach c.remote c.near c.sink
    obtain ⟨hmember, p, hp, hwilling⟩ := hs.healthy
    refine ⟨?_, ?_, hs.listed, hs.apart⟩
    · rw [hpeers]
      have hlt := h.node.lt_length hmember
      exact ⟨List.mem_append_left _ hmember, p,
        (List.getElem?_append_left hlt).trans hp, hwilling⟩
    · rw [hreaders, List.mem_append, not_or]
      exact ⟨hs.untold, by simp⟩
  | @begins i _ =>
    obtain ⟨hpeers, hreaders⟩ := s.node.peers_beginDownload network i
    exact ⟨hpeers.symm ▸ hs.healthy, hreaders.symm ▸ hs.untold, hs.listed, hs.apart⟩
  | reads _ =>
    refine ⟨hs.healthy, fun htold => ?_, hs.listed, hs.apart⟩
    exact (mem_setReader htold).elim (by simp) hs.untold
  | @ends _ k hmay =>
    -- There is no reason for the reading of this connection to end.
    have hk : k ≠ id := by
      rintro rfl
      obtain rfl | htold | hnot := hmay
      · exact hne rfl
      · exact hs.untold htold
      · exact hnot hs.healthy
    refine ⟨hs.healthy.remove_of_ne hk, fun htold => ?_, hs.listed, hs.apart⟩
    exact (mem_setReader htold).elim (by simp) hs.untold
  | continues hn =>
    exact ⟨hn.healthy h.node.nodup id hs.healthy, hn.readers.symm ▸ hs.untold, hs.listed, hs.apart⟩

theorem stays_run (h : s.Sound) (hs : s.Stays id) (hne : .hangUp id ∉ events) :
    (run network s events).Stays id := by
  induction events generalizing s with
  | nil => exact hs
  | cons event events ih =>
    obtain ⟨hfirst, hrest⟩ := not_or.1 (List.mem_cons.not.1 hne)
    have hc := change_step network s event
    exact ih (sound_change h hc) (stays_change h hs hc (Ne.symm hfirst)) hrest

/-- A connection that joins after the members were listed, and takes what is written to it. -/
theorem stays_attach (h : s.Sound) (hlisted : s.HasListed) (hw : c.sink.Willing) :
    (step network s (.attach c)).Stays s.node.peers.connections.length := by
  obtain ⟨-, -, hpeers⟩ := s.node.attach_eq c.remote c.near c.sink
  obtain ⟨hreaders, -⟩ := s.node.readers_attach c.remote c.near c.sink
  rw [step]
  refine ⟨?_, ?_, hlisted, fun hrest => Nat.lt_irrefl _ (h.made _ hrest)⟩
  · rw [hpeers]
    exact ⟨List.mem_append_right _ (List.mem_singleton_self _), .connected c.remote c.sink,
      List.getElem?_concat_length, rfl, hw⟩
  · rw [hreaders, List.mem_append, not_or]
    exact ⟨fun hr => Nat.lt_irrefl _ (h.node.made _ hr), by simp⟩

theorem stays_of_joined (h : s.Sound) (hjoined : JoinedLate network s events c id)
    (hw : c.sink.Willing) (hne : .hangUp id ∉ events) : (run network s events).Stays id := by
  obtain ⟨before, after, rfl, hlisted, rfl⟩ := hjoined
  rw [List.mem_append, not_or, List.mem_cons, not_or] at hne
  have hbefore : (run network s before).Sound := sound_run h before
  rw [run_append, run_cons]
  exact stays_run (sound_change hbefore (change_step network _ _))
    (stays_attach hbefore hlisted hw) hne.2.2

/-! ## Who is left -/

theorem isOpen_of_isClosed {n : Node} (h : n.isClosed id = false) : n.peers.IsOpen id := by
  rw [Node.isClosed] at h
  cases hp : n.peers.peer? id with
  | none =>
    rw [hp] at h
    cases h
  | some p =>
    rw [hp] at h
    exact ⟨p, hp, h⟩

/-- Let a node be stopped while anything else goes on, in whatever order, until stopping is over and
nothing is left to be done but to wait.

A download has ended unless it began after the signal. One that did was not stopped: it waits, to
ask again and again, or it ended on its own.

A connection is still read just when it is a member, and every member became one after the members
were listed. Every connection that did, and that takes what is written to it and does not end at the
other end, is still a member. -/
theorem reaches_all_but_late {n : Node} {disk : Disk} (hn : n.Sound)
    (hrun : run network (start n disk) events = s) (hover : s.phase = .over)
    (hsettled : s.Settled) :
    (∀ i d, s.node.downloads[i]? = some d →
      (¬ BeganLate network (start n disk) events i → ∃ outcome, d.stage = .finished outcome) ∧
      (BeganLate network (start n disk) events i → (∃ ep, d.stage = .waiting ep false) ∨
        ∃ outcome, outcome ≠ .interrupted ∧ d.stage = .finished outcome)) ∧
    (∀ r ∈ s.node.readers, r.stage = .finished ∨
      r.stage = .reading false ∧ r.peer ∈ s.node.peers.members) ∧
    (∀ id ∈ s.node.peers.members, ⟨id, .reading false⟩ ∈ s.node.readers ∧
      ∃ c, JoinedLate network (start n disk) events c id) ∧
    ∀ c id, JoinedLate network (start n disk) events c id → c.sink.Willing →
      .hangUp id ∉ events → id ∈ s.node.peers.members := by
  subst hrun
  have hstart := sound_start hn disk
  have hsound : (run network (start n disk) events).Sound := sound_run hstart events
  have hlisted : (run network (start n disk) events).HasListed := by
    rw [HasListed, hover]
    simp
  refine ⟨fun i d hd => ⟨fun hnot => ?_, fun hlate => ?_⟩, fun r hr => ?_, fun id hid => ?_, ?_⟩
  · rcases hsettled.downloads d (List.mem_of_getElem? hd) with ⟨ep, hwaits⟩ | hends
    · have huntold : d.stage.Untold := by
        rw [hwaits]
        rfl
      exact absurd (began_of_untold rfl hlisted.1 ⟨d, hd, huntold⟩) hnot
    · exact hends
  · obtain ⟨d', hd', hstage⟩ := unstopped_of_beganLate hlate
    obtain rfl := Option.some.inj (hd'.symm.trans hd)
    rcases hsettled.downloads d' (List.mem_of_getElem? hd) with hwaits | ⟨outcome, hends⟩
    · exact .inl hwaits
    · rw [hends] at hstage
      exact .inr (hends ▸ hstage.resolve_left id)
  · rcases hsettled.readers r hr with ⟨hreads, hopen⟩ | hends
    · exact .inr ⟨hreads, hsound.node.member r hr (isOpen_of_isClosed hopen)⟩
    · exact .inl hends
  · obtain ⟨⟨peer, stage⟩, hr, rfl, hgoes⟩ := hsound.node.read id hid
    rcases hsettled.readers _ hr with ⟨rfl, -⟩ | hends
    · have hrest : peer ∉ (run network (start n disk) events).rest := by
        rw [Stopping.rest, hover]
        exact List.not_mem_nil
      exact ⟨hr, joined_of_member hstart rfl hlisted hid hrest⟩
    · exact absurd hends hgoes
  · intro c id hjoined hw hne
    exact (stays_of_joined hstart hjoined hw hne).healthy.member

/-- Two files are asked for and three connections come. The first download and the first two
connections are ended. The second download begins right after the signal and the third connection
joins right after the members were listed; both are still there when stopping is over. -/
theorem reaches_all_but_late_missed :
    let d (name : String) (first : UInt8) : Descriptor :=
      ⟨name, .ofBytes [first], .replicate chunkCount .zero, 8⟩
    let store := do
      let t ← (Store.empty "").insert (.ofPeer (d "f" 1) "f")
      t.insert (.ofPeer (d "g" 2) "g")
    let n : Node := { Node.new .standard with store := store.toOption.getD (.empty "") }
    let c : Incoming := ⟨default, default, .unlimited⟩
    let events : List Event := [.request "f", .begin 0, .round 0, .attach c, .read 0, .request "g",
      .attach c, .signal, .begin 1, .list, .remove, .attach c, .remove, .save, .halt 0, .round 1,
      .leave 0, .read 1, .read 2]
    let s := run .isolated (start n .empty) events
    n.Sound ∧ s.phase = .over ∧ s.Settled ∧ BeganLate .isolated (start n .empty) events 1 ∧
      JoinedLate .isolated (start n .empty) events c 2 ∧
      (∃ d ep, s.node.downloads[1]? = some d ∧ d.stage = .waiting ep false) ∧
      s.node.peers.members = [2] ∧ ⟨2, .reading false⟩ ∈ s.node.readers := by
  intro d store n c events s
  have hn : n.Sound := (Node.sound_new .standard).of_eq rfl rfl
  have hfinal : s.phase = .over ∧ s.node.downloads.map Download.stage =
        [.finished .interrupted, .waiting ⟨.loopback, 49152⟩ false] ∧
      s.node.readers = [⟨0, .finished⟩, ⟨1, .finished⟩, ⟨2, .reading false⟩] ∧
      s.node.isClosed 2 = false ∧ s.node.peers.members = [2] := by decide +kernel
  obtain ⟨hover, hstages, hreaders, hopen, honly⟩ := hfinal
  have hsettled : s.Settled := by
    refine ⟨fun x hx => ?_, fun r hr => ?_⟩
    · have hstage := List.mem_map_of_mem (f := Download.stage) hx
      simp only [hstages, List.mem_cons, List.not_mem_nil, or_false] at hstage
      rcases hstage with hx | hx
      · exact .inr ⟨_, hx⟩
      · exact .inl ⟨_, hx⟩
    · simp only [hreaders, List.mem_cons, List.not_mem_nil, or_false] at hr
      rcases hr with rfl | rfl | rfl
      · exact .inr rfl
      · exact .inr rfl
      · exact .inl ⟨rfl, hopen⟩
  have hbegan : BeganLate .isolated (start n .empty) events 1 := by
    have hsignalled : (run .isolated (start n .empty) (events.take 8)).phase = .signalled ∧
        (run .isolated (start n .empty) (events.take 8)).node.downloads[1]?.map
          Download.stage = some .spawned := by decide +kernel
    exact ⟨events.take 8, events.drop 9, rfl, by simp [hsignalled.1],
      Option.map_eq_some_iff.1 hsignalled.2⟩
  have hjoined : JoinedLate .isolated (start n .empty) events c 2 := by
    have hlisted : (run .isolated (start n .empty) (events.take 11)).phase = .removing [1] ∧
        (run .isolated (start n .empty) (events.take 11)).node.peers.connections.length = 2 := by
      decide +kernel
    exact ⟨events.take 11, events.drop 12, rfl, by simp [HasListed, hlisted.1], hlisted.2.symm⟩
  have hrun : run .isolated (start n .empty) events = s := rfl
  obtain ⟨hdownloads, -, hmembers, hstay⟩ := reaches_all_but_late hn hrun hover hsettled
  have hmember : 2 ∈ s.node.peers.members := by
    refine hstay c 2 hjoined Sink.willing_unlimited ?_
    simp [events]
  obtain ⟨x, hx, hstage⟩ : ∃ x, s.node.downloads[1]? = some x ∧
      x.stage = .waiting ⟨.loopback, 49152⟩ false := by
    have hsecond : s.node.downloads[1]?.map Download.stage =
        some (.waiting ⟨.loopback, 49152⟩ false) := by
      rw [← List.getElem?_map, hstages]
      rfl
    exact Option.map_eq_some_iff.1 hsecond
  rcases (hdownloads 1 x hx).2 hbegan with ⟨ep, hwaits⟩ | ⟨outcome, -, hends⟩
  · exact ⟨hn, hover, hsettled, hbegan, hjoined, ⟨x, ep, hx, hwaits⟩, honly,
      (hmembers 2 hmember).1⟩
  · rw [hstage] at hends
    cases hends

end FileMesh.Stopping
