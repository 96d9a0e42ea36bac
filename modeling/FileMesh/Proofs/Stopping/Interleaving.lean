import FileMesh.Node.Shutdown
import FileMesh.Proofs.Gossip.Latecomer
import FileMesh.Proofs.Stopping.Continuing

/-!
# A node that stops while it works

Stopping a node takes several steps: the signal is sent, the members are listed, each of these is
removed, and the files are saved. Between them everything else goes on: downloads are requested,
begin, run their rounds and stop; connections become peers, begin to be read, bring messages and
end. A step is what happens without anything coming between. The signal reaches those that listen
when it is sent and nobody else, and a download or a connection listens from its own first step on.
-/

namespace FileMesh

/-- How far stopping a node is: it has not begun, the signal was sent, the members were listed and
the rest of them is still to be removed, or the files were saved and stopping is over. -/
inductive StopPhase where
  | running
  | signalled
  | removing (rest : List PeerId)
  | over
deriving DecidableEq

/-- A node while it is being stopped, and its disk. -/
structure Stopping where
  node : Node
  disk : Disk
  phase : StopPhase

namespace Stopping

variable {network : Network} {s s' : Stopping} {id : PeerId} {i : Nat}

/-- A node that is not being stopped. -/
def start (n : Node) (disk : Disk) : Stopping := ⟨n, disk, .running⟩

/-- Those that were listed and are still to be removed. -/
def rest (s : Stopping) : List PeerId :=
  match s.phase with
  | .removing rest => rest
  | _ => []

/-! ## Steps of stopping -/

/-- The signal is sent, once. -/
def signal (s : Stopping) : Stopping :=
  match s.phase with
  | .running => { s with node := s.node.signal, phase := .signalled }
  | _ => s

/-- The members are listed. -/
def list (s : Stopping) : Stopping :=
  match s.phase with
  | .signalled => { s with phase := .removing s.node.peers.members }
  | _ => s

/-- The next of those that were listed is removed. -/
def remove (s : Stopping) : Stopping :=
  match s.phase with
  | .removing (id :: rest) => { s with node := s.node.drop id, phase := .removing rest }
  | _ => s

/-- When all of them are removed, the files are saved. -/
def save (s : Stopping) : Stopping :=
  match s.phase with
  | .removing [] => ⟨(s.node.saveAll s.disk).1, (s.node.saveAll s.disk).2, .over⟩
  | _ => s

/-! ## Steps of downloads and connections -/

/-- A connection is being read. -/
def Reads (s : Stopping) (id : PeerId) : Prop :=
  ⟨id, .reading false⟩ ∈ s.node.readers ∨ ⟨id, .reading true⟩ ∈ s.node.readers

instance (s : Stopping) (id : PeerId) : Decidable (s.Reads id) :=
  inferInstanceAs (Decidable (_ ∨ _))

/-- A connection whose reading has not begun begins to be read, unless it was closed. -/
def read (s : Stopping) (id : PeerId) : Stopping :=
  if ⟨id, .spawned⟩ ∈ s.node.readers then { s with node := s.node.beginReader id } else s

/-- A message arrives on a connection that is read. -/
def receive (network : Network) (s : Stopping) (id : PeerId) (m : Message) : Stopping :=
  if s.Reads id then
    { s with
      node := (s.node.dispatch network s.disk id m).1
      disk := (s.node.dispatch network s.disk id m).2 }
  else s

/-- A connection that is read ends at the other end. -/
def hangUp (s : Stopping) (id : PeerId) : Stopping :=
  if s.Reads id then { s with node := s.node.finishReader id } else s

/-- What can happen. Stopping sends the signal, lists the members, removes the next of them and
saves the files. The operator asks for a file, and a download begins, runs a round, has waited long
enough or stops. A connection becomes a peer, is told the catalog, begins to be read, brings a
message or ends at the other end, and its reading ends if it was told to or the connection was
closed. -/
inductive Event where
  | signal
  | list
  | remove
  | save
  | request (name : String)
  | begin (i : Nat)
  | round (i : Nat)
  | wake (i : Nat)
  | halt (i : Nat)
  | attach (c : Incoming)
  | greet (id : PeerId)
  | read (id : PeerId)
  | receive (id : PeerId) (m : Message)
  | hangUp (id : PeerId)
  | leave (id : PeerId)

/-- What one event does. -/
def step (network : Network) (s : Stopping) : Event → Stopping
  | .signal => s.signal
  | .list => s.list
  | .remove => s.remove
  | .save => s.save
  | .request name => { s with node := (s.node.requestDownload s.disk name).2 }
  | .begin i => { s with node := s.node.beginDownload network i }
  | .round i =>
    { s with node := (s.node.runRound s.disk i).1, disk := (s.node.runRound s.disk i).2 }
  | .wake i => { s with node := s.node.wakeDownload i }
  | .halt i => { s with node := s.node.stopDownload i }
  | .attach c => { s with node := (s.node.attach c.remote c.near c.sink).2 }
  | .greet id => { s with node := s.node.greet id }
  | .read id => s.read id
  | .receive id m => s.receive network id m
  | .hangUp id => s.hangUp id
  | .leave id => { s with node := s.node.stopReader id }

/-- What one event after the other does. -/
def run (network : Network) (s : Stopping) (events : List Event) : Stopping :=
  events.foldl (step network) s

theorem run_cons (network : Network) (s : Stopping) (event : Event) (events : List Event) :
    run network s (event :: events) = run network (step network s event) events := rfl

theorem run_append (network : Network) (s : Stopping) (before after : List Event) :
    run network s (before ++ after) = run network (run network s before) after :=
  List.foldl_append

theorem run_concat (network : Network) (s : Stopping) (events : List Event) (event : Event) :
    run network s (events ++ [event]) = step network (run network s events) event :=
  run_append network s events [event]

/-! ## Stopping without anything coming between -/

theorem run_remove (network : Network) {rest : List PeerId} (h : s.phase = .removing rest) :
    run network s (List.replicate rest.length .remove) =
      { s with node := s.node.dropPeers rest, phase := .removing [] } := by
  induction rest generalizing s with
  | nil =>
    rw [← h]
    rfl
  | cons id rest ih =>
    rw [List.length_cons, List.replicate_succ, run_cons, step, remove, h]
    exact ih rfl

theorem run_halt (network : Network) (s : Stopping) (is : List Nat) :
    run network s (is.map .halt) = { s with node := is.foldl Node.stopDownload s.node } := by
  induction is generalizing s with
  | nil => rfl
  | cons i is ih => exact ih _

theorem run_leave (network : Network) (s : Stopping) (ids : List PeerId) :
    run network s (ids.map .leave) = { s with node := ids.foldl Node.stopReader s.node } := by
  induction ids generalizing s with
  | nil => rfl
  | cons id ids ih => exact ih _

theorem readers_dropPeers (n : Node) (ids : List PeerId) :
    (n.dropPeers ids).readers = n.readers ∧ (n.dropPeers ids).downloads = n.downloads := by
  induction ids generalizing n with
  | nil => exact ⟨rfl, rfl⟩
  | cons id ids ih => exact ih (n.drop id)

theorem readers_stopDownloads (n : Node) (is : List Nat) :
    (is.foldl Node.stopDownload n).readers = n.readers := by
  induction is generalizing n with
  | nil => rfl
  | cons i is ih => exact (ih _).trans (n.continues_stopDownload i).readers

/-- The events of stopping a node that nothing comes between. -/
def shutdownEvents (n : Node) : List Event :=
  [.signal, .list] ++ List.replicate n.peers.members.length .remove ++ [.save] ++
    (List.range n.downloads.length).map .halt ++ (n.readers.map ConnectionReader.peer).map .leave

theorem run_shutdown (network : Network) (n : Node) (disk : Disk) :
    run network (start n disk) (shutdownEvents n) =
      ⟨(n.shutdown disk).1, (n.shutdown disk).2, .over⟩ := by
  obtain ⟨⟨saved, disk'⟩, hsave⟩ :
    ∃ x, (n.signal.dropPeers n.peers.members).saveAll disk = x := ⟨_, rfl⟩
  have hlisted : run network (start n disk) [.signal, .list] =
      ⟨n.signal, disk, .removing n.peers.members⟩ := rfl
  have hremoved := run_remove network (s := ⟨n.signal, disk, .removing n.peers.members⟩) rfl
  have hsaved : run network ⟨n.signal.dropPeers n.peers.members, disk, .removing []⟩ [.save] =
      ⟨saved, disk', .over⟩ := by
    rw [run_cons, step, save, hsave]
    rfl
  -- The signal and the removals leave the lists of downloads and readings as long as they were.
  obtain ⟨hreaders, hdownloads⟩ : saved.readers = n.signal.readers ∧
      saved.downloads = n.signal.downloads := by
    have hdropped := readers_dropPeers n.signal n.peers.members
    cases hsave
    exact hdropped
  have hlength : n.signal.downloads.length = n.downloads.length := List.length_map _
  have hpeers : n.signal.readers.map ConnectionReader.peer =
      n.readers.map ConnectionReader.peer := by
    rw [Node.signal, List.map_map]
    apply List.map_congr_left
    intro r _
    rw [Function.comp, Node.signalReader]
    split <;> rfl
  have hstopped : n.shutdown disk = (saved.stopAll, disk') := by
    have hsame : (n.signal.dropPeers n.signal.peers.members).saveAll disk = (saved, disk') := hsave
    rw [Node.shutdown, hsame]
  rw [hstopped, Node.stopAll, readers_stopDownloads, hreaders, hdownloads, hlength, hpeers]
  simp only [shutdownEvents, run_append, hlisted, hremoved, hsaved, run_halt, run_leave]

/-! ## What a step can do -/

/-- The reading of a connection may end with this event: the connection ends at the other end, or
its reading was told to stop, or it is not a healthy member. -/
def MayEnd (s : Stopping) (id : PeerId) (event : Event) : Prop :=
  event = .hangUp id ∨ ⟨id, .reading true⟩ ∈ s.node.readers ∨ ¬ s.node.peers.Healthy id

/-- What a step can do. -/
inductive Change (network : Network) (s : Stopping) : Event → Stopping → Prop
  | signals : s.phase = .running →
    Change network s .signal { s with node := s.node.signal, phase := .signalled }
  | lists : s.phase = .signalled →
    Change network s .list { s with phase := .removing s.node.peers.members }
  | removes {id : PeerId} {rest : List PeerId} : s.phase = .removing (id :: rest) →
    Change network s .remove { s with node := s.node.drop id, phase := .removing rest }
  | saves : s.phase = .removing [] →
    Change network s .save ⟨(s.node.saveAll s.disk).1, (s.node.saveAll s.disk).2, .over⟩
  | attaches (c : Incoming) :
    Change network s (.attach c) { s with node := (s.node.attach c.remote c.near c.sink).2 }
  | begins {i : Nat} : s.node.Spawned i →
    Change network s (.begin i) { s with node := s.node.beginDownload network i }
  | reads {id : PeerId} : ⟨id, .spawned⟩ ∈ s.node.readers →
    Change network s (.read id) { s with node := s.node.setReader id (.reading false) }
  | ends {event : Event} {id : PeerId} : s.MayEnd id event →
    Change network s event { s with node := s.node.finishReader id }
  | continues {event : Event} {n : Node} {disk : Disk} : s.node.Continues n →
    Change network s event { s with node := n, disk }

/-- Nothing happens. -/
theorem Change.nothing (network : Network) (s : Stopping) (event : Event) :
    Change network s event s := .continues (.refl s.node)

theorem not_healthy_of_isClosed {n : Node} (h : n.isClosed id = true) : ¬ n.peers.Healthy id := by
  rintro ⟨-, p, hp, hopen, -⟩
  rw [Node.isClosed, hp, Option.map_some, Option.getD_some, hopen] at h
  cases h

theorem change_read (network : Network) (s : Stopping) (id : PeerId) :
    Change network s (.read id) (s.read id) := by
  rw [read]
  split
  · rename_i hspawned
    rw [Node.beginReader]
    split
    · rename_i hclosed
      exact .ends (.inr (.inr (not_healthy_of_isClosed hclosed)))
    · exact .reads hspawned
  · exact .nothing network s _

theorem change_leave (network : Network) (s : Stopping) (id : PeerId) :
    Change network s (.leave id) { s with node := s.node.stopReader id } := by
  rw [Node.stopReader]
  split
  · rename_i hany
    refine .ends (.inr ?_)
    obtain ⟨⟨peer, stage⟩, hr, hstage⟩ := List.any_eq_true.1 hany
    simp only [Bool.and_eq_true, Bool.or_eq_true, decide_eq_true_eq, beq_iff_eq] at hstage
    obtain ⟨rfl, rfl | ⟨rfl, hclosed⟩⟩ := hstage
    · exact .inl hr
    · exact .inr (not_healthy_of_isClosed hclosed)
  · exact .nothing network s _

theorem change_step (network : Network) (s : Stopping) (event : Event) :
    Change network s event (step network s event) := by
  cases event with
  | signal =>
    rw [step, signal]
    split
    · exact .signals ‹_›
    · exact .nothing network s _
  | list =>
    rw [step, list]
    split
    · exact .lists ‹_›
    · exact .nothing network s _
  | remove =>
    rw [step, remove]
    split
    · exact .removes ‹_›
    · exact .nothing network s _
  | save =>
    rw [step, save]
    split
    · exact .saves ‹_›
    · exact .nothing network s _
  | request name => exact .continues (Node.continues_requestDownload s.disk s.node name)
  | begin i =>
    by_cases hi : s.node.Spawned i
    · exact .begins hi
    · rw [step, Node.beginDownload_of_not_spawned hi]
      exact .nothing network s _
  | round i => exact .continues (Node.continues_runRound s.disk s.node i)
  | wake i => exact .continues (Node.continues_wakeDownload s.node i)
  | halt i => exact .continues (Node.continues_stopDownload s.node i)
  | attach c => exact .attaches c
  | greet id => exact .continues (Node.continues_greet s.node id)
  | read id => exact change_read network s id
  | receive id m =>
    rw [step, receive]
    split
    · exact .continues (Node.continues_dispatch network s.disk s.node id m)
    · exact .nothing network s _
  | hangUp id =>
    rw [step, hangUp]
    split
    · exact .ends (.inl rfl)
    · exact .nothing network s _
  | leave id => exact change_leave network s id

end Stopping

/-! ## Members and readings -/

namespace Node

variable {n n' : Node} {id : PeerId} {stage : ReaderStage}

/-- Nobody is a member twice, and readings are of connections that were made. Every member has a
reading that has not ended, and every reading of an open connection is that of a member. -/
structure Sound (n : Node) : Prop where
  nodup : n.peers.members.Nodup
  made : ∀ r ∈ n.readers, r.peer < n.peers.connections.length
  read : ∀ id ∈ n.peers.members, ∃ r ∈ n.readers, r.peer = id ∧ r.stage ≠ .finished
  member : ∀ r ∈ n.readers, n.peers.IsOpen r.peer → r.peer ∈ n.peers.members

theorem sound_new (config : Config) : (new config).Sound where
  nodup := List.nodup_nil
  made := List.forall_mem_nil _
  read := List.forall_mem_nil _
  member := List.forall_mem_nil _

namespace Sound

theorem of_eq (h : n.Sound) (hpeers : n'.peers = n.peers) (hreaders : n'.readers = n.readers) :
    n'.Sound := by
  obtain ⟨hnodup, hmade, hread, hmember⟩ := h
  rw [← hpeers] at hnodup hmade hread hmember
  rw [← hreaders] at hmade hread hmember
  exact ⟨hnodup, hmade, hread, hmember⟩

theorem of_releases (h : n.Sound) (hpeers : n.peers.Releases n'.peers)
    (hreaders : n'.readers = n.readers) : n'.Sound where
  nodup := hpeers.nodup
  made := by
    rw [hreaders, hpeers.length]
    exact h.made
  read id hid := by
    rw [hreaders]
    exact h.read id (hpeers.members hid)
  member := by
    rw [hreaders]
    exact fun r hr hopen =>
      hpeers.stays r.peer (h.member r hr (hpeers.opened r.peer hopen)) hopen

theorem releases_drop (h : n.Sound) (id : PeerId) : n.peers.Releases (n.drop id).peers :=
  PeerSet.releases_remove h.nodup id

theorem drop (h : n.Sound) (id : PeerId) : (n.drop id).Sound :=
  h.of_releases (h.releases_drop id) rfl

/-- A reading goes on to another stage. It ends only if the connection is no member. -/
theorem setReader (h : n.Sound) (hstage : stage = .finished → id ∉ n.peers.members) :
    (n.setReader id stage).Sound where
  nodup := h.nodup
  made r' hr' := by
    obtain ⟨r, hr, rfl⟩ := List.mem_map.1 hr'
    split <;> exact h.made r hr
  read k hk := by
    obtain ⟨r, hr, hpeer, hgoes⟩ := h.read k hk
    refine ⟨_, List.mem_map_of_mem hr, ?_⟩
    split
    · rename_i hid
      have hmember : id ∈ n.peers.members := hid.symm.trans hpeer ▸ hk
      exact ⟨hpeer, fun hfinished => hstage hfinished hmember⟩
    · exact ⟨hpeer, hgoes⟩
  member r' hr' hopen := by
    obtain ⟨r, hr, rfl⟩ := List.mem_map.1 hr'
    split at hopen
    · rw [if_pos ‹_›]
      exact h.member r hr hopen
    · rw [if_neg ‹_›]
      exact h.member r hr hopen

theorem finishReader (h : n.Sound) (id : PeerId) : (n.finishReader id).Sound :=
  (h.drop id).setReader fun _ => PeerSet.not_mem_remove h.nodup id

theorem signal (h : n.Sound) : n.signal.Sound := by
  have hpeer (r : ConnectionReader) : (signalReader r).peer = r.peer := by
    rw [signalReader]
    split <;> rfl
  have hgoes (r : ConnectionReader) (hr : r.stage ≠ .finished) :
      (signalReader r).stage ≠ .finished := by
    rw [signalReader]
    split
    · simp
    · exact hr
  refine ⟨h.nodup, fun r' hr' => ?_, fun id hid => ?_, fun r' hr' hopen => ?_⟩
  · obtain ⟨r, hr, rfl⟩ := List.mem_map.1 hr'
    exact (hpeer r).symm ▸ h.made r hr
  · obtain ⟨r, hr, rfl, hstage⟩ := h.read id hid
    exact ⟨signalReader r, List.mem_map_of_mem hr, hpeer r, hgoes r hstage⟩
  · obtain ⟨r, hr, rfl⟩ := List.mem_map.1 hr'
    rw [hpeer] at hopen ⊢
    exact h.member r hr hopen

end Sound

theorem Sound.lt_length (h : n.Sound) (hid : id ∈ n.peers.members) :
    id < n.peers.connections.length := by
  obtain ⟨r, hr, rfl, -⟩ := h.read id hid
  exact h.made r hr

/-- What a new connection changes. -/
theorem readers_attach (n : Node) (remote near : SocketAddress) (sink : Sink) :
    (n.attach remote near sink).2.readers =
      n.readers ++ [⟨n.peers.connections.length, .spawned⟩] ∧
    (n.attach remote near sink).2.downloads = n.downloads := by
  rw [attach]
  cases near.reachableIp? with
  | none => exact ⟨rfl, rfl⟩
  | some ip =>
    simp only [noteInterface]
    split <;> exact ⟨rfl, rfl⟩

theorem Sound.attach (h : n.Sound) (remote near : SocketAddress) (sink : Sink) :
    (n.attach remote near sink).2.Sound := by
  obtain ⟨-, -, hpeers⟩ := n.attach_eq remote near sink
  obtain ⟨hreaders, -⟩ := n.readers_attach remote near sink
  refine ⟨?_, ?_, ?_, ?_⟩
  all_goals simp only [hpeers, hreaders]
  · refine List.nodup_append.2 ⟨h.nodup, List.nodup_singleton _, fun a ha b hb hab => ?_⟩
    rw [List.mem_singleton.1 hb] at hab
    exact Nat.ne_of_lt (h.lt_length ha) hab
  · intro r hr
    rw [List.length_append, List.length_singleton]
    rcases List.mem_append.1 hr with hr | hr
    · exact Nat.lt_succ_of_lt (h.made r hr)
    · rw [List.mem_singleton.1 hr]
      exact Nat.lt_succ_self _
  · intro id hid
    rcases List.mem_append.1 hid with hid | hid
    · obtain ⟨r, hr, hpeer⟩ := h.read id hid
      exact ⟨r, List.mem_append_left _ hr, hpeer⟩
    · rw [List.mem_singleton.1 hid]
      exact ⟨_, List.mem_append_right _ (List.mem_singleton_self _), rfl, by simp⟩
  · intro r hr hopen
    rcases List.mem_append.1 hr with hr | hr
    · -- The new connection changes nothing for those that were there.
      obtain ⟨p, hp, hpopen⟩ := hopen
      have hold : n.peers.peer? r.peer = some p :=
        (List.getElem?_append_left (h.made r hr)).symm.trans hp
      exact List.mem_append_left _ (h.member r hr ⟨p, hold, hpopen⟩)
    · rw [List.mem_singleton.1 hr]
      exact List.mem_append_right _ (List.mem_singleton_self _)

end Node

namespace Stopping

variable {network : Network} {s s' : Stopping} {event : Event}

/-- Members and readings of the node fit together, and those that are still to be removed are
connections that were made. -/
structure Sound (s : Stopping) : Prop where
  node : s.node.Sound
  made : ∀ id ∈ s.rest, id < s.node.peers.connections.length

theorem sound_start {n : Node} (h : n.Sound) (disk : Disk) : (start n disk).Sound :=
  ⟨h, List.forall_mem_nil _⟩

theorem sound_change (h : s.Sound) (hc : Change network s event s') : s'.Sound := by
  cases hc with
  | signals _ => exact ⟨h.node.signal, List.forall_mem_nil _⟩
  | lists _ => exact ⟨h.node, fun id hid => h.node.lt_length hid⟩
  | @removes id rest hremoving =>
    have hrest : s.rest = id :: rest := by rw [Stopping.rest, hremoving]
    have hlength := (h.node.releases_drop id).length
    refine ⟨h.node.drop id, fun k hk => ?_⟩
    exact hlength.symm ▸ h.made k (hrest ▸ List.mem_cons_of_mem id hk)
  | saves _ => exact ⟨h.node.of_eq rfl rfl, List.forall_mem_nil _⟩
  | attaches c =>
    obtain ⟨-, -, hpeers⟩ := s.node.attach_eq c.remote c.near c.sink
    refine ⟨h.node.attach c.remote c.near c.sink, fun k hk => ?_⟩
    rw [hpeers, List.length_append]
    exact Nat.lt_add_right _ (h.made k hk)
  | @begins i _ =>
    obtain ⟨hpeers, hreaders⟩ := s.node.peers_beginDownload network i
    refine ⟨h.node.of_eq hpeers hreaders, fun k hk => ?_⟩
    rw [hpeers]
    exact h.made k hk
  | reads _ => exact ⟨h.node.setReader (by simp), h.made⟩
  | @ends _ id _ =>
    have hlength := (h.node.releases_drop id).length
    exact ⟨h.node.finishReader id, fun k hk => hlength.symm ▸ h.made k hk⟩
  | continues hn =>
    have hreleases := hn.releases h.node.nodup
    exact ⟨h.node.of_releases hreleases hn.readers,
      fun k hk => hreleases.length.symm ▸ h.made k hk⟩

/-- Whatever happens, members and readings go on to fit together. -/
theorem sound_run (h : s.Sound) (events : List Event) : (run network s events).Sound := by
  induction events generalizing s with
  | nil => exact h
  | cons event events ih => exact ih (sound_change h (change_step network s event))

end Stopping

end FileMesh
