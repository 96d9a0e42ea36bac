import FileMesh.Node.Shutdown
import FileMesh.Proofs.Peer.Membership
import FileMesh.Proofs.Peer.Reach
import FileMesh.Proofs.Sharing
import FileMesh.Proofs.Store
import FileMesh.Proofs.Verification

/-!
# The course of a download

A download opens its return endpoint, then looks what is missing, asks for it and waits, again and
again, until nothing is missing or it is told to stop while it waits. In between anything may happen
to the node, its peers and its files. Each step of the download does one thing and nothing else, and
the steps come in this order only; so what was asked, saved and said is known from where the
download stands.
-/

namespace FileMesh

namespace VerifiedChunks

theorem mem_unverified {v : VerifiedChunks} {k : Nat} :
    k ∈ v.unverified ↔ k < chunkCount ∧ v.has k = false := by
  simp [unverified]

theorem pairwise_unverified (v : VerifiedChunks) : v.unverified.Pairwise (· < ·) :=
  List.pairwise_lt_range.filter _

end VerifiedChunks

/-! ## What stays known -/

namespace Entry

theorem descriptor_openFile (disk : Disk) (e : Entry) :
    (e.openFile disk).2.1.descriptor = e.descriptor := by
  rw [openFile]
  split
  · rfl
  · dsimp only
    split <;> rfl

theorem descriptor_openChunk (disk : Disk) (e : Entry) (index : Nat) :
    (e.openChunk disk index).2.1.descriptor = e.descriptor := by
  rw [openChunk]
  split
  · rfl
  · exact e.descriptor_openFile disk

end Entry

namespace Relay

theorem descriptor_answer (network : Network) (disk : Disk) (e : Entry) (r : ChunkRequest) :
    (answer network disk e r).2.1.descriptor = e.descriptor := by
  rw [answer_snd]
  exact e.descriptor_openChunk disk r.chunkIndex.toNat

theorem descriptor_accept (disk : Disk) (e : Entry) (chunk : ChunkData) :
    (accept disk e chunk).2.1.descriptor = e.descriptor := by
  have hopen := e.descriptor_openChunk disk chunk.chunkIndex.toNat
  simp only [accept]
  split
  · rfl
  · split
    · rename_i heq
      rwa [heq] at hopen
    · rename_i heq
      rw [heq] at hopen
      split <;> exact hopen

end Relay

namespace Store

variable {s t u : Store}

/-- What is known in `s` is known in `t`, which is as sound. -/
def Extends (s t : Store) : Prop := s.Valid → t.Valid ∧ ∀ hash e, s.lookup hash = some e →
  ∃ e', t.lookup hash = some e' ∧ e'.descriptor = e.descriptor

theorem Extends.refl (s : Store) : s.Extends s := fun h => ⟨h, fun _ e he => ⟨e, he, rfl⟩⟩

theorem Extends.trans (h : s.Extends t) (h' : t.Extends u) : s.Extends u := by
  intro hs
  obtain ⟨ht, hknown⟩ := h hs
  obtain ⟨hu, hknown'⟩ := h' ht
  refine ⟨hu, fun hash e he => ?_⟩
  obtain ⟨e', he', hd⟩ := hknown hash e he
  obtain ⟨e'', he'', hd'⟩ := hknown' hash e' he'
  exact ⟨e'', he'', hd'.trans hd⟩

/-- An entry changes, but not its descriptor. -/
theorem extends_modify {hash : ContentHash} {e e' : Entry} (hl : s.lookup hash = some e)
    (hd : e'.descriptor = e.descriptor) : s.Extends (s.modify hash fun _ => e') := by
  refine fun h => ⟨h.modify _ _, fun k x hx => ?_⟩
  rw [h.lookup_modify]
  by_cases hk : k = hash
  · obtain rfl := hk
    obtain rfl := Option.some.inj (hx.symm.trans hl)
    exact ⟨e', by rw [if_pos rfl, hx, Option.map_some], hd⟩
  · exact ⟨x, by rw [if_neg hk, hx], rfl⟩

theorem extends_insert {e : Entry} (hi : s.insert e = .ok t) : s.Extends t :=
  fun h => ⟨h.insert hi, fun _ x hx => ⟨x, (h.lookup_insert_iff hi).2 (.inr hx), rfl⟩⟩

theorem extends_saveAll (disk : Disk) (s : Store) : s.Extends (saveAll disk s).1 := by
  refine fun h => ⟨h.saveAll disk, fun hash e he => ⟨e.unmap, ?_, rfl⟩⟩
  rw [h.lookup_saveAll, he, Option.map_some]

end Store

namespace Acquisition

variable {i : Nat} {hash : ContentHash} {ep : Endpoint} {stage stage' : DownloadStage}

/-! ## Courses -/

/-- What can happen: the download opens its return endpoint, runs a round, has waited long enough,
or stops because it was told to while it waits, or something else happens. -/
inductive Step where
  | start (network : Network)
  | round
  | wake
  | stop
  | other

/-- Something else happens to the node and the disk. Peers may come and go, chunks may arrive, files
may change, the operator may be told something. The settings stay, a peer is no member twice, what
is known stays known, and the download is at most told to stop. -/
structure Elsewhere (i : Nat) (s s' : Node × Disk) : Prop where
  config : s'.1.config = s.1.config
  nodup : s.1.peers.members.Nodup → s'.1.peers.members.Nodup
  store : s.1.store.Extends s'.1.store
  download : ∀ d, s.1.downloads[i]? = some d → s'.1.downloads[i]? = some d ∨
    s'.1.downloads[i]? = some { d with stage := d.stage.signal }

/-- What a step makes of the node and the disk. -/
def Step.Takes (i : Nat) (s s' : Node × Disk) : Step → Prop
  | start network => s' = (s.1.beginDownload network i, s.2)
  | round => s' = s.1.runRound s.2 i
  | wake => s' = (s.1.wakeDownload i, s.2)
  | stop => s' = (s.1.stopDownload i, s.2)
  | other => Elsewhere i s s'

/-- A step, with the node and the disk before and after. -/
structure Move where
  before : Node × Disk
  step : Step
  after : Node × Disk

/-- Everything that happens from `s₀` on, one thing after the other, until the node and the disk are
these. -/
inductive Course (i : Nat) (s₀ : Node × Disk) : List Move → Node × Disk → Prop
  | nil : Course i s₀ [] s₀
  | snoc {moves : List Move} {s s' : Node × Disk} {step : Step} : Course i s₀ moves s →
    step.Takes i s s' → Course i s₀ (moves ++ [⟨s, step, s'⟩]) s'

/-! ## What a step of the download does -/

/-- Nothing but the record of the downloads changes: nothing is sent, nobody is told anything, and
no file is touched. -/
structure Silent (s s' : Node × Disk) : Prop where
  disk : s'.2 = s.2
  store : s'.1.store = s.1.store
  peers : s'.1.peers = s.1.peers
  notices : s'.1.notices = s.1.notices

namespace Move

/-- The download does nothing. -/
def Rests (m : Move) : Prop := m.step ≠ .other → m.after = m.before

/-- The return endpoint is opened. -/
structure Opens (ep : Endpoint) (m : Move) : Prop extends Silent m.before m.after where
  opened : ∃ network address, m.step = .start network ∧
    network.openListener (m.before.1.config.listenAddress.withPort 0) = .ok address ∧
    ep = ⟨m.before.1.returnIp, address.port⟩

/-- There is no return endpoint. -/
structure Fails (cause : NetworkError) (m : Move) : Prop extends Silent m.before m.after where
  refused : ∃ network, m.step = .start network ∧
    network.openListener (m.before.1.config.listenAddress.withPort 0) = .error cause

/-- A round asks for exactly the chunks that are missing, in ascending order. Every member that
takes what is written to it gets all of these requests and nothing else and stays a member. A member
that does not is closed and leaves, and got a beginning of them. Nobody else gets anything. -/
structure Asks (hash : ContentHash) (ep : Endpoint) (m : Move) : Prop where
  step : m.step = .round
  disk : m.after.2 = m.before.2
  store : m.after.1.store = m.before.1.store
  notices : m.after.1.notices = m.before.1.notices
  asked : ∃ (e : Entry) (requests : List ChunkRequest), m.before.1.store.lookup hash = some e ∧
    (e.verify m.before.2).isComplete = false ∧
    (∀ k, (∃ r ∈ requests, r.chunkIndex.toNat = k) ↔
      k < chunkCount ∧ (e.verify m.before.2).has k = false) ∧
    requests.Pairwise (fun r r' => r.chunkIndex.toNat < r'.chunkIndex.toNat) ∧
    (∀ r ∈ requests, r.hash = hash ∧ r.returnEndpoint = ep ∧
      r.ttl = m.before.1.config.requestTtl) ∧
    m.before.1.peers.Reached m.after.1.peers (requests.map .requestFileData)

/-- A round finds every chunk of the entry `e`. The entry is saved, which unmaps it. Nothing is
sent. -/
structure Saves (hash : ContentHash) (e : Entry) (m : Move) : Prop where
  step : m.step = .round
  peers : m.after.1.peers = m.before.1.peers
  known : m.before.1.store.lookup hash = some e
  complete : (e.verify m.before.2).isComplete = true
  saved : m.after.1.store.lookup hash = some (e.save m.before.2).2.1
  unmapped : (e.save m.before.2).2.1.isMapped = false
  disk : m.after.2 = (e.save m.before.2).2.2

/-- A round finds every chunk, the disk takes the file and the operator is told once. -/
def Completes (hash : ContentHash) (m : Move) : Prop :=
  ∃ e : Entry, m.Saves hash e ∧ (e.save m.before.2).1 = .ok () ∧
    m.after.1.notices = m.before.1.notices ++
      [.system ("File '" ++ e.descriptor.name ++ "' downloaded!")]

/-- A round finds every chunk, the disk does not take the file and the operator is not told. -/
def LeavesUnsaved (hash : ContentHash) (name : String) (cause : StoreError) (m : Move) : Prop :=
  ∃ e : Entry, m.Saves hash e ∧ (e.save m.before.2).1 = .error cause ∧ e.descriptor.name = name ∧
    m.after.1.notices = m.before.1.notices

/-- The time of waiting is over. -/
structure Wakes (m : Move) : Prop extends Silent m.before m.after where
  step : m.step = .wake

/-- The download stops. -/
structure Stops (m : Move) : Prop extends Silent m.before m.after where
  step : m.step = .stop

end Move

/-- The step is one that a download at this stage takes. -/
def Step.Due : Step → DownloadStage → Prop
  | start _, .spawned => True
  | round, .verifying _ _ => True
  | wake, .waiting _ _ => True
  | stop, .waiting _ true => True
  | _, _ => False

/-- What a step of the download does, and where the download stands before and after. -/
inductive Effect (hash : ContentHash) (m : Move) : DownloadStage → DownloadStage → Prop
  | rests (stage : DownloadStage) : ¬ m.step.Due stage → m.after = m.before →
    Effect hash m stage stage
  | opens (ep : Endpoint) : m.Opens ep → Effect hash m .spawned (.verifying ep false)
  | fails (cause : NetworkError) : m.Fails cause →
    Effect hash m .spawned (.finished (.failed cause))
  | asks (ep : Endpoint) (stopping : Bool) : m.Asks hash ep →
    Effect hash m (.verifying ep stopping) (.waiting ep stopping)
  | completes (ep : Endpoint) (stopping : Bool) : m.Completes hash →
    Effect hash m (.verifying ep stopping) (.finished .complete)
  | leavesUnsaved (ep : Endpoint) (stopping : Bool) (name : String) (cause : StoreError) :
    m.LeavesUnsaved hash name cause →
    Effect hash m (.verifying ep stopping) (.finished (.unsaved name cause))
  | wakes (ep : Endpoint) (stopping : Bool) : m.Wakes →
    Effect hash m (.waiting ep stopping) (.verifying ep stopping)
  | stops (ep : Endpoint) : m.Stops →
    Effect hash m (.waiting ep true) (.finished .interrupted)

/-- The download is at this stage, its file is known and nobody is a member twice. -/
structure Stands (i : Nat) (hash : ContentHash) (s : Node × Disk) (stage : DownloadStage) :
    Prop where
  download : s.1.downloads[i]? = some ⟨hash, stage⟩
  valid : s.1.store.Valid
  known : ∃ e, s.1.store.lookup hash = some e
  nodup : s.1.peers.members.Nodup

variable {s s' : Node × Disk} {moves : List Move} {m : Move} {step : Step}

theorem getElem?_setStage (n : Node) (h : n.downloads[i]? = some ⟨hash, stage⟩)
    (stage' : DownloadStage) : (n.setStage i stage').downloads[i]? = some ⟨hash, stage'⟩ := by
  rw [Node.setStage, List.getElem?_modify, h]
  simp

theorem Stands.stage_eq_of_download (h : Stands i hash s stage)
    (hd : s.1.downloads[i]? = some ⟨hash, stage'⟩) : stage' = stage := by
  rw [h.download] at hd
  cases hd
  rfl

theorem Stands.stage_eq (h : Stands i hash s stage) (h' : Stands i hash s stage') :
    stage' = stage := h.stage_eq_of_download h'.download

/-- The download moves on to another stage. -/
theorem Stands.setStage {n : Node} {disk : Disk} (h : Stands i hash (n, disk) stage)
    (stage' : DownloadStage) : Stands i hash (n.setStage i stage', disk) stage' :=
  ⟨getElem?_setStage n h.download stage', h.valid, h.known, h.nodup⟩

/-- The download ends. -/
theorem Stands.finishDownload {n : Node} {disk : Disk} (h : Stands i hash (n, disk) stage)
    (outcome : DownloadOutcome) : Stands i hash
      (n.finishDownload i ⟨hash, stage⟩ outcome, disk) (.finished outcome) :=
  ⟨getElem?_setStage n h.download _, h.valid, h.known, h.nodup⟩

theorem silent_setStage (n : Node) (disk : Disk) (i : Nat) (stage : DownloadStage) :
    Silent (n, disk) (n.setStage i stage, disk) := ⟨rfl, rfl, rfl, rfl⟩

theorem silent_finishDownload (n : Node) (disk : Disk) (i : Nat) (d : Download)
    (outcome : DownloadOutcome) : Silent (n, disk) (n.finishDownload i d outcome, disk) :=
  ⟨rfl, rfl, rfl, rfl⟩

/-! ## Rounds and stops -/

/-- The requests of a round. -/
theorem requests_spec (hash : ContentHash) (ep : Endpoint) (ttl : UInt8) (v : VerifiedChunks) :
    (∀ k, (∃ r ∈ Download.requests hash ep ttl v, r.chunkIndex.toNat = k) ↔
      k < chunkCount ∧ v.has k = false) ∧
    (Download.requests hash ep ttl v).Pairwise
      (fun r r' => r.chunkIndex.toNat < r'.chunkIndex.toNat) ∧
    ∀ r ∈ Download.requests hash ep ttl v, r.hash = hash ∧ r.returnEndpoint = ep ∧ r.ttl = ttl := by
  have hindex {k : Nat} (hk : k ∈ v.unverified) : (UInt32.ofNat k).toNat = k :=
    UInt32.toNat_ofNat_of_lt' (by
      have hlt : k < 8 := (VerifiedChunks.mem_unverified.1 hk).1
      exact hlt.trans (by decide))
  refine ⟨fun k => ?_, ?_, ?_⟩
  · rw [← VerifiedChunks.mem_unverified]
    constructor
    · rintro ⟨r, hr, rfl⟩
      obtain ⟨k, hk, rfl⟩ := List.mem_map.1 hr
      rwa [hindex hk]
    · intro hk
      exact ⟨_, List.mem_map_of_mem hk, hindex hk⟩
  · rw [Download.requests, List.pairwise_map]
    refine v.pairwise_unverified.imp_of_mem fun hk hk' hlt => ?_
    rwa [hindex hk, hindex hk']
  · intro r hr
    obtain ⟨k, -, rfl⟩ := List.mem_map.1 hr
    exact ⟨rfl, rfl, rfl⟩

theorem peers_requestMissing (n : Node) (hash : ContentHash) (ep : Endpoint) (v : VerifiedChunks) :
    (n.requestMissing hash ep v).peers = n.peers.broadcastAll
      ((Download.requests hash ep n.config.requestTtl v).map .requestFileData) := by
  rw [Node.requestMissing, PeerSet.broadcastAll, List.foldl_map]

theorem reached_requestMissing (n : Node) (hash : ContentHash) (ep : Endpoint) (v : VerifiedChunks)
    (hn : n.peers.members.Nodup) : n.peers.Reached (n.requestMissing hash ep v).peers
      ((Download.requests hash ep n.config.requestTtl v).map .requestFileData) := by
  rw [peers_requestMissing]
  refine PeerSet.reached_broadcastAll hn fun m hm => ?_
  obtain ⟨r, -, rfl⟩ := List.mem_map.1 hm
  exact ⟨_, rfl⟩

/-- A download that looks what is missing either asks for it and waits, or nothing is missing and it
ends: it is complete, or its file cannot be saved. -/
theorem round_of_verifying {stopping : Bool} (h : Stands i hash s (.verifying ep stopping))
    (ht : Step.round.Takes i s s') :
    (Move.mk s .round s').Asks hash ep ∧ Stands i hash s' (.waiting ep stopping) ∨
      (Move.mk s .round s').Completes hash ∧ Stands i hash s' (.finished .complete) ∨
      ∃ name cause, (Move.mk s .round s').LeavesUnsaved hash name cause ∧
        Stands i hash s' (.finished (.unsaved name cause)) := by
  obtain ⟨n, disk⟩ := s
  obtain ⟨e, hlookup⟩ := h.known
  obtain ⟨hdownload, hvalid, -, hnodup⟩ := h
  simp only at hdownload hvalid hlookup hnodup
  obtain rfl : s' = n.runRound disk i := ht
  cases hv : (e.verify disk).isComplete with
  | false =>
    left
    obtain ⟨hexact, hascending, hfields⟩ :=
      requests_spec hash ep n.config.requestTtl (e.verify disk)
    have hreached := reached_requestMissing n hash ep (e.verify disk) hnodup
    have hround : n.runRound disk i =
        ((n.requestMissing hash ep (e.verify disk)).setStage i (.waiting ep stopping), disk) := by
      simp only [Node.runRound, hdownload, hlookup, hv, Bool.false_eq_true, if_false]
    rw [hround]
    exact ⟨⟨rfl, rfl, rfl, rfl, e, _, hlookup, hv, hexact, hascending, hfields, hreached⟩,
      getElem?_setStage (n.requestMissing hash ep (e.verify disk)) hdownload _, hvalid,
      ⟨e, hlookup⟩, hnodup.sublist hreached.members⟩
  | true =>
    right
    have hround : n.runRound disk i =
        n.completeDownload disk i ⟨hash, .verifying ep stopping⟩ e := by
      simp only [Node.runRound, hdownload, hlookup, hv, if_true]
    rw [hround]
    have hsaved : (n.store.modify hash fun _ => (e.save disk).2.1).lookup hash =
        some (e.save disk).2.1 := hvalid.lookup_replace hlookup
    cases hresult : (e.save disk).1 with
    | ok _ =>
      left
      rw [Node.completeDownload_of_ok hresult]
      exact ⟨⟨e, ⟨rfl, rfl, hlookup, hv, hsaved, rfl, rfl⟩, hresult, rfl⟩,
        getElem?_setStage _ hdownload _, hvalid.modify _ _, ⟨_, hsaved⟩, hnodup⟩
    | error cause =>
      right
      rw [Node.completeDownload_of_error hresult]
      exact ⟨_, cause, ⟨e, ⟨rfl, rfl, hlookup, hv, hsaved, rfl, rfl⟩, hresult, rfl, rfl⟩,
        getElem?_setStage _ hdownload _, hvalid.modify _ _, ⟨_, hsaved⟩, hnodup⟩

/-- A download that waits and was told to stop stops. -/
theorem stop_of_waiting (h : Stands i hash s (.waiting ep true)) (ht : Step.stop.Takes i s s') :
    (Move.mk s .stop s').Stops ∧ Stands i hash s' (.finished .interrupted) := by
  obtain ⟨n, disk⟩ := s
  have hdownload : n.downloads[i]? = some ⟨hash, .waiting ep true⟩ := h.download
  have hstop : n.stopDownload i =
      n.finishDownload i ⟨hash, .waiting ep true⟩ .interrupted := by
    simp only [Node.stopDownload, hdownload]
  obtain rfl : s' = (n.finishDownload i ⟨hash, .waiting ep true⟩ .interrupted, disk) :=
    Eq.trans ht (congrArg (·, disk) hstop)
  exact ⟨⟨silent_finishDownload n disk i _ _, rfl⟩, h.finishDownload .interrupted⟩

/-! ## Every step -/

theorem effect_of_start (network : Network) (h : Stands i hash s stage)
    (ht : (Step.start network).Takes i s s') : ∃ stage', Effect hash ⟨s, .start network, s'⟩ stage
      stage' ∧ Stands i hash s' stage' := by
  obtain ⟨n, disk⟩ := s
  have hdownload : n.downloads[i]? = some ⟨hash, stage⟩ := h.download
  obtain rfl : s' = (n.beginDownload network i, disk) := ht
  cases stage with
  | spawned =>
    cases hopen : network.openListener (n.config.listenAddress.withPort 0) with
    | error cause =>
      have hbegin : n.beginDownload network i =
          n.finishDownload i ⟨hash, .spawned⟩ (.failed cause) := by
        simp only [Node.beginDownload, hdownload, hopen]
      rw [hbegin]
      exact ⟨_, .fails cause ⟨silent_finishDownload n disk i _ _, network, rfl, hopen⟩,
        h.finishDownload _⟩
    | ok address =>
      have hbegin : n.beginDownload network i =
          n.setStage i (.verifying ⟨n.returnIp, address.port⟩ false) := by
        simp only [Node.beginDownload, hdownload, hopen]
      rw [hbegin]
      exact ⟨_, .opens _ ⟨silent_setStage n disk i _, network, address, rfl, hopen, rfl⟩,
        h.setStage _⟩
  | _ =>
    have hbegin : n.beginDownload network i = n := by simp only [Node.beginDownload, hdownload]
    rw [hbegin]
    exact ⟨_, .rests _ id rfl, h⟩

theorem effect_of_round (h : Stands i hash s stage) (ht : Step.round.Takes i s s') :
    ∃ stage', Effect hash ⟨s, .round, s'⟩ stage stage' ∧ Stands i hash s' stage' := by
  cases stage with
  | verifying ep stopping =>
    rcases round_of_verifying h ht with
      ⟨hasks, hstands⟩ | ⟨hcompletes, hstands⟩ | ⟨name, cause, hunsaved, hstands⟩
    · exact ⟨_, .asks ep stopping hasks, hstands⟩
    · exact ⟨_, .completes ep stopping hcompletes, hstands⟩
    · exact ⟨_, .leavesUnsaved ep stopping name cause hunsaved, hstands⟩
  | _ =>
    have hround : s.1.runRound s.2 i = s := by simp only [Node.runRound, h.download]
    obtain rfl : s' = s := ht.trans hround
    exact ⟨_, .rests _ id rfl, h⟩

theorem effect_of_wake (h : Stands i hash s stage) (ht : Step.wake.Takes i s s') :
    ∃ stage', Effect hash ⟨s, .wake, s'⟩ stage stage' ∧ Stands i hash s' stage' := by
  obtain ⟨n, disk⟩ := s
  have hdownload : n.downloads[i]? = some ⟨hash, stage⟩ := h.download
  obtain rfl : s' = (n.wakeDownload i, disk) := ht
  cases stage with
  | waiting ep stopping =>
    have hwake : n.wakeDownload i = n.setStage i (.verifying ep stopping) := by
      simp only [Node.wakeDownload, hdownload]
    rw [hwake]
    exact ⟨_, .wakes ep stopping ⟨silent_setStage n disk i _, rfl⟩, h.setStage _⟩
  | _ =>
    have hwake : n.wakeDownload i = n := by simp only [Node.wakeDownload, hdownload]
    rw [hwake]
    exact ⟨_, .rests _ id rfl, h⟩

theorem effect_of_stop (h : Stands i hash s stage) (ht : Step.stop.Takes i s s') :
    ∃ stage', Effect hash ⟨s, .stop, s'⟩ stage stage' ∧ Stands i hash s' stage' := by
  by_cases hdue : Step.stop.Due stage
  · obtain ⟨ep, rfl⟩ : ∃ ep, stage = .waiting ep true := by
      cases stage with
      | waiting ep stopping =>
        cases stopping with
        | true => exact ⟨ep, rfl⟩
        | false => exact hdue.elim
      | _ => exact hdue.elim
    obtain ⟨hstops, hstands⟩ := stop_of_waiting h ht
    exact ⟨_, .stops ep hstops, hstands⟩
  · have hstop : s.1.stopDownload i = s.1 := by
      rw [Node.stopDownload, h.download]
      split
      · rename_i ep heq
        cases heq
        exact absurd trivial hdue
      · rfl
    obtain rfl : s' = s := Eq.trans ht (congrArg (·, s.2) hstop)
    exact ⟨_, .rests _ hdue rfl, h⟩

/-- Every step of a download is one of these. -/
theorem effect_of_takes (h : Stands i hash s stage) (hstep : step ≠ .other)
    (ht : step.Takes i s s') : ∃ stage', Effect hash ⟨s, step, s'⟩ stage stage' ∧
      Stands i hash s' stage' := by
  cases step with
  | start network => exact effect_of_start network h ht
  | round => exact effect_of_round h ht
  | wake => exact effect_of_wake h ht
  | stop => exact effect_of_stop h ht
  | other => exact absurd rfl hstep

/-- Whatever else happens, the download stands where it stood, or it was told to stop. -/
theorem stands_of_elsewhere (h : Stands i hash s stage) (he : Elsewhere i s s') :
    ∃ stage', (stage' = stage ∨ stage' = stage.signal) ∧ Stands i hash s' stage' := by
  obtain ⟨e, hlookup⟩ := h.known
  obtain ⟨hvalid, hknown⟩ := he.store h.valid
  obtain ⟨e', hlookup', -⟩ := hknown hash e hlookup
  rcases he.download _ h.download with hsame | hsignal
  · exact ⟨stage, .inl rfl, hsame, hvalid, ⟨e', hlookup'⟩, he.nodup h.nodup⟩
  · exact ⟨stage.signal, .inr rfl, hsignal, hvalid, ⟨e', hlookup'⟩, he.nodup h.nodup⟩

/-! ## What happened -/

/-- The download does nothing in any of these. -/
def Quiet (moves : List Move) : Prop := ∀ m ∈ moves, m.Rests

/-- The download opened its return endpoint `ep`, having done nothing before, and since then it did
nothing but ask for what was missing, with that endpoint, and wait. -/
def Polls (hash : ContentHash) (ep : Endpoint) (moves : List Move) : Prop :=
  ∃ before m after, moves = before ++ m :: after ∧ Quiet before ∧ m.Opens ep ∧
    ∀ x ∈ after, x.Rests ∨ x.Asks hash ep ∨ x.Wakes

/-- What happened, if the download stands here. -/
def Tells (hash : ContentHash) (moves : List Move) : DownloadStage → Prop
  | .spawned => Quiet moves
  | .verifying ep _ => Polls hash ep moves
  | .waiting ep _ => Polls hash ep moves
  | .finished .complete => ∃ ep before m after, moves = before ++ m :: after ∧
    Polls hash ep before ∧ m.Completes hash ∧ Quiet after
  | .finished .interrupted => ∃ ep before m after, moves = before ++ m :: after ∧
    Polls hash ep before ∧ m.Stops ∧ Quiet after
  | .finished (.failed cause) => ∃ before m after, moves = before ++ m :: after ∧
    Quiet before ∧ m.Fails cause ∧ Quiet after
  | .finished (.unsaved name cause) => ∃ ep before m after, moves = before ++ m :: after ∧
    Polls hash ep before ∧ m.LeavesUnsaved hash name cause ∧ Quiet after

theorem quiet_nil : Quiet [] := List.forall_mem_nil _

theorem Quiet.concat (h : Quiet moves) (hm : m.Rests) : Quiet (moves ++ [m]) := by
  intro x hx
  rcases List.mem_append.1 hx with hx | hx
  · exact h x hx
  · rwa [List.mem_singleton.1 hx]

theorem Polls.concat (h : Polls hash ep moves) (hm : m.Rests ∨ m.Asks hash ep ∨ m.Wakes) :
    Polls hash ep (moves ++ [m]) := by
  obtain ⟨before, opening, after, rfl, hquiet, hopens, hpolls⟩ := h
  refine ⟨before, opening, after ++ [m], by simp, hquiet, hopens, fun x hx => ?_⟩
  rcases List.mem_append.1 hx with hx | hx
  · exact hpolls x hx
  · rwa [List.mem_singleton.1 hx]

/-- A move in which the download does nothing adds nothing. -/
theorem Tells.concat (h : Tells hash moves stage) (hm : m.Rests) :
    Tells hash (moves ++ [m]) stage := by
  cases stage with
  | spawned => exact Quiet.concat h hm
  | verifying ep stopping => exact Polls.concat h (.inl hm)
  | waiting ep stopping => exact Polls.concat h (.inl hm)
  | finished outcome =>
    cases outcome with
    | complete =>
      obtain ⟨ep, before, x, after, rfl, hpolls, hx, hquiet⟩ := h
      exact ⟨ep, before, x, after ++ [m], by simp, hpolls, hx, hquiet.concat hm⟩
    | interrupted =>
      obtain ⟨ep, before, x, after, rfl, hpolls, hx, hquiet⟩ := h
      exact ⟨ep, before, x, after ++ [m], by simp, hpolls, hx, hquiet.concat hm⟩
    | failed cause =>
      obtain ⟨before, x, after, rfl, hbefore, hx, hquiet⟩ := h
      exact ⟨before, x, after ++ [m], by simp, hbefore, hx, hquiet.concat hm⟩
    | unsaved name cause =>
      obtain ⟨ep, before, x, after, rfl, hpolls, hx, hquiet⟩ := h
      exact ⟨ep, before, x, after ++ [m], by simp, hpolls, hx, hquiet.concat hm⟩

/-- To be told to stop is no step. -/
theorem Tells.signal (h : Tells hash moves stage) : Tells hash moves stage.signal := by
  cases stage <;> exact h

theorem tells_of_effect (h : Tells hash moves stage) (he : Effect hash m stage stage') :
    Tells hash (moves ++ [m]) stage' := by
  cases he with
  | rests stage _ hsame => exact h.concat fun _ => hsame
  | opens ep hopens => exact ⟨moves, m, [], rfl, h, hopens, List.forall_mem_nil _⟩
  | fails cause hfails => exact ⟨moves, m, [], rfl, h, hfails, quiet_nil⟩
  | asks ep stopping hasks => exact Polls.concat h (.inr (.inl hasks))
  | completes ep stopping hcompletes => exact ⟨ep, moves, m, [], rfl, h, hcompletes, quiet_nil⟩
  | leavesUnsaved ep stopping name cause hunsaved =>
    exact ⟨ep, moves, m, [], rfl, h, hunsaved, quiet_nil⟩
  | wakes ep stopping hwakes => exact Polls.concat h (.inr (.inr hwakes))
  | stops ep hstops => exact ⟨ep, moves, m, [], rfl, h, hstops, quiet_nil⟩

/-- Where the download stands after a course, and what happened. -/
theorem stands_course {s₀ : Node × Disk} (h₀ : Stands i hash s₀ .spawned)
    (hc : Course i s₀ moves s) : ∃ stage, Stands i hash s stage ∧ Tells hash moves stage := by
  induction hc with
  | nil => exact ⟨.spawned, h₀, quiet_nil⟩
  | @snoc moves s s' step hc ht ih =>
    obtain ⟨stage, hstands, htells⟩ := ih
    by_cases hstep : step = .other
    · subst hstep
      obtain ⟨stage', hstage, hstands'⟩ := stands_of_elsewhere hstands ht
      refine ⟨stage', hstands', ?_⟩
      have htells' := htells.concat (m := ⟨s, .other, s'⟩) fun hother => absurd rfl hother
      rcases hstage with rfl | rfl
      · exact htells'
      · exact htells'.signal
    · obtain ⟨stage', heffect, hstands'⟩ := effect_of_takes hstands hstep ht
      exact ⟨stage', hstands', tells_of_effect htells heffect⟩

/-! ## What else happens -/

section

variable (network : Network) (disk : Disk) (n : Node)

theorem Elsewhere.refl (i : Nat) (s : Node × Disk) : Elsewhere i s s :=
  ⟨rfl, id, .refl _, fun _ => .inl⟩

/-- Files change. -/
theorem elsewhere_files (i : Nat) (s : Node × Disk) : Elsewhere i s (s.1, disk) :=
  ⟨rfl, id, .refl _, fun _ => .inl⟩

/-- Every entry is saved. -/
theorem elsewhere_saveAll (i : Nat) : Elsewhere i (n, disk) (n.saveAll disk) :=
  ⟨rfl, id, Store.extends_saveAll disk n.store, fun _ => .inl⟩

theorem nodup_broadcast {peers : PeerSet} (h : peers.members.Nodup) (m : Message)
    (skip : Option PeerId) : (peers.broadcast m skip).2.members.Nodup := by
  rw [PeerSet.members_broadcast]
  exact h.filter _

/-- The node is told to stop. -/
theorem elsewhere_signal (i : Nat) : Elsewhere i (n, disk) (n.signal, disk) where
  config := rfl
  nodup := id
  store := .refl _
  download d hd := by
    right
    show (n.downloads.map _)[i]? = _
    rw [List.getElem?_map, show n.downloads[i]? = some d from hd]
    rfl

/-- A message arrives, a chunk for instance. -/
theorem elsewhere_dispatch (i : Nat) (id : PeerId) (m : Message) :
    Elsewhere i (n, disk) (n.dispatch network disk id m) := by
  cases m with
  | fileDef d =>
    rw [Node.dispatch, Gossip.hear]
    cases hlearn : Gossip.learn n.store d with
    | none => exact .refl i _
    | some store =>
      have hadd : n.store.add d = .ok store := toOption_eq_some_iff.1 hlearn
      exact ⟨rfl, fun h => nodup_broadcast h _ _, Store.extends_insert hadd, fun _ => .inl⟩
  | requestFileData r =>
    rw [Node.dispatch]
    cases hholds : Relay.holds n.store disk r with
    | none =>
      rw [Relay.request_of_none hholds]
      exact ⟨rfl, fun h => nodup_broadcast h _ _, .refl _, fun _ => .inl⟩
    | some e =>
      rw [Relay.request_of_some hholds]
      have hlookup : n.store.lookup r.hash = some e := (Option.filter_eq_some_iff.1 hholds).1
      have hstore := Store.extends_modify hlookup (Relay.descriptor_answer network disk e r)
      exact ⟨rfl, fun h => h, hstore, fun _ => .inl⟩
  | fileData chunk =>
    rw [Node.dispatch, Relay.deliver]
    cases hlookup : n.store.lookup chunk.hash with
    | none => exact .refl i _
    | some e =>
      have hstore := Store.extends_modify hlookup (Relay.descriptor_accept disk e chunk)
      exact ⟨rfl, fun h => h, hstore, fun _ => .inl⟩
  | requestAddrSelf =>
    rw [Node.dispatch, Node.reportAddress]
    split
    · exact ⟨rfl, fun h => by rwa [PeerSet.members_send], .refl _, fun _ => .inl⟩
    · exact .refl i _
  | addrSelf observed => exact ⟨rfl, fun h => h, .refl _, fun _ => .inl⟩

/-- A file of this host is shared. -/
theorem elsewhere_share (i : Nat) {path : String} {d : Descriptor} {n n' : Node}
    (hs : n.share disk path = .ok (d, n')) : Elsewhere i (n, disk) (n', disk) := by
  obtain ⟨name, store, -, hshare, rfl⟩ := Node.exists_of_share hs
  obtain ⟨-, -, hadd⟩ := Store.exists_openToRead_of_share hshare
  exact ⟨rfl, fun h => nodup_broadcast h _ _, Store.extends_insert hadd, fun _ => .inl⟩

/-- The operator asks for a file. -/
theorem elsewhere_requestDownload (i : Nat) (name : String) :
    Elsewhere i (n, disk) ((n.requestDownload disk name).2, disk) := by
  rw [Node.requestDownload]
  cases n.candidate disk name with
  | error r => exact ⟨rfl, id, .refl _, fun _ => .inl⟩
  | ok e =>
    simp only [Node.register, bind, Except.bind]
    split
    · rename_i j n' heq
      split at heq
      · cases heq
      · cases heq
        refine ⟨rfl, id, .refl _, fun d hd => .inl ?_⟩
        obtain ⟨hlt, -⟩ := List.getElem?_eq_some_iff.1 hd
        show (n.downloads ++ _)[i]? = _
        rw [List.getElem?_append_left hlt]
        exact hd
    · exact ⟨rfl, id, .refl _, fun _ => .inl⟩

/-- A new peer joins. -/
theorem elsewhere_attach (i : Nat) (remote near : SocketAddress) (sink : Sink)
    (hnew : n.peers.connections.length ∉ n.peers.members) :
    Elsewhere i (n, disk) ((n.attach remote near sink).2, disk) := by
  have hnote (ip : Ipv4) : (n.noteInterface ip).peers = n.peers ∧
      (n.noteInterface ip).config = n.config ∧ (n.noteInterface ip).store = n.store ∧
      (n.noteInterface ip).downloads = n.downloads := by
    rw [Node.noteInterface]
    split <;> exact ⟨rfl, rfl, rfl, rfl⟩
  have hmembers (h : n.peers.members.Nodup) :
      (n.peers.members ++ [n.peers.connections.length]).Nodup :=
    List.nodup_append.2 ⟨h, List.nodup_singleton _, fun a ha b hb hab => by
      rw [List.mem_singleton.1 hb] at hab
      exact hnew (hab ▸ ha)⟩
  rw [Node.attach]
  cases near.reachableIp? with
  | none => exact ⟨rfl, hmembers, .refl _, fun _ => .inl⟩
  | some ip =>
    obtain ⟨hpeers, hconfig, hstore, hdownloads⟩ := hnote ip
    refine ⟨hconfig, ?_, ?_, ?_⟩
    · simp only [hpeers]
      exact hmembers
    · simp only [hstore]
      exact .refl _
    · simp only [hdownloads]
      exact fun _ => .inl

/-- A peer leaves. -/
theorem elsewhere_drop (i : Nat) (id : PeerId) : Elsewhere i (n, disk) (n.drop id, disk) := by
  refine ⟨rfl, fun h => ?_, .refl _, fun _ => .inl⟩
  show (n.peers.remove id).2.members.Nodup
  by_cases hid : id ∈ n.peers.members
  · obtain ⟨-, hperm, -⟩ := PeerSet.remove_of_mem hid
    exact (List.nodup_cons.1 (hperm.nodup_iff.2 h)).2
  · rwa [PeerSet.remove_of_not_mem hid]

end

theorem elsewhere_setStage {j : Nat} (hij : j ≠ i) (n : Node) (disk : Disk)
    (stage : DownloadStage) : Elsewhere i (n, disk) (n.setStage j stage, disk) := by
  refine ⟨rfl, id, .refl _, fun d hd => .inl ?_⟩
  show (n.downloads.modify j _)[i]? = some d
  rw [List.getElem?_modify, show n.downloads[i]? = some d from hd]
  simp [hij]

theorem elsewhere_finishDownload {j : Nat} (hij : j ≠ i) (n : Node) (disk : Disk) (d : Download)
    (outcome : DownloadOutcome) : Elsewhere i (n, disk) (n.finishDownload j d outcome, disk) :=
  have h := elsewhere_setStage hij n disk (.finished outcome)
  ⟨h.config, h.nodup, h.store, h.download⟩

theorem elsewhere_round {j : Nat} (hij : j ≠ i) (n : Node) (disk : Disk) :
    Elsewhere i (n, disk) (n.runRound disk j) := by
  rw [Node.runRound]
  split
  · rename_i hash ep stopping _
    split
    · exact .refl i _
    · rename_i e hlookup
      dsimp only
      split
      · -- The other download is complete, and its file is saved.
        have hstore : n.store.Extends (n.store.modify hash fun _ => (e.save disk).2.1) :=
          Store.extends_modify hlookup rfl
        cases hresult : (e.save disk).1 with
        | ok _ =>
          rw [Node.completeDownload_of_ok hresult]
          have hfinish := elsewhere_finishDownload hij ({ n with
            store := n.store.modify hash fun _ => (e.save disk).2.1 }.notify
              (.system ("File '" ++ e.descriptor.name ++ "' downloaded!"))) (e.save disk).2.2
            ⟨hash, .verifying ep stopping⟩ .complete
          exact ⟨hfinish.config, hfinish.nodup, hstore.trans hfinish.store, hfinish.download⟩
        | error cause =>
          rw [Node.completeDownload_of_error hresult]
          have hfinish := elsewhere_finishDownload hij { n with
            store := n.store.modify hash fun _ => (e.save disk).2.1 } (e.save disk).2.2
            ⟨hash, .verifying ep stopping⟩ (.unsaved e.descriptor.name cause)
          exact ⟨hfinish.config, hfinish.nodup, hstore.trans hfinish.store, hfinish.download⟩
      · have hstage := elsewhere_setStage hij (n.requestMissing hash ep (e.verify disk)) disk
          (.waiting ep stopping)
        refine ⟨hstage.config, fun hn => hstage.nodup ?_, hstage.store, hstage.download⟩
        exact hn.sublist (reached_requestMissing n hash ep (e.verify disk) hn).members
  · exact .refl i _

/-- Another download of the node takes a step. -/
theorem elsewhere_of_takes {j : Nat} (hij : j ≠ i) (hstep : step ≠ .other)
    (ht : step.Takes j s s') : Elsewhere i s s' := by
  obtain ⟨n, disk⟩ := s
  cases step with
  | start network =>
    obtain rfl : s' = (n.beginDownload network j, disk) := ht
    rw [Node.beginDownload]
    split
    · split
      · exact elsewhere_finishDownload hij n disk _ _
      · exact elsewhere_setStage hij n disk _
    · exact .refl i _
  | round =>
    obtain rfl : s' = n.runRound disk j := ht
    exact elsewhere_round hij n disk
  | wake =>
    obtain rfl : s' = (n.wakeDownload j, disk) := ht
    rw [Node.wakeDownload]
    split
    · exact elsewhere_setStage hij n disk _
    · exact .refl i _
  | stop =>
    obtain rfl : s' = (n.stopDownload j, disk) := ht
    rw [Node.stopDownload]
    split
    · exact elsewhere_finishDownload hij n disk _ _
    · exact .refl i _
  | other => exact absurd rfl hstep

/-- The download was told to stop, or it has ended. -/
def Told : DownloadStage → Prop
  | .spawned => False
  | .verifying _ stopping => stopping = true
  | .waiting _ stopping => stopping = true
  | .finished _ => True

theorem Told.signal (h : Told stage) : Told stage.signal := by
  cases stage with
  | spawned => exact h
  | verifying ep stopping => exact rfl
  | waiting ep stopping => exact rfl
  | finished outcome => exact h

theorem told_of_effect (he : Effect hash m stage stage') (h : Told stage) : Told stage' := by
  cases he with
  | rests stage _ _ => exact h
  | opens ep _ => exact h.elim
  | fails cause _ => trivial
  | asks ep stopping _ => exact h
  | completes ep stopping _ => trivial
  | leavesUnsaved ep stopping name cause _ => trivial
  | wakes ep stopping _ => exact h
  | stops ep _ => trivial

/-- Every move of a course is a step of a download that stands somewhere, and what it was told it
does not forget. -/
theorem stands_of_mem {s₀ : Node × Disk} (h₀ : Stands i hash s₀ .spawned)
    (hc : Course i s₀ moves s) (hs : Stands i hash s stage) (hm : m ∈ moves) :
    m.step.Takes i m.before m.after ∧ (∃ stage₁, Stands i hash m.before stage₁) ∧
      ∃ stage₂, Stands i hash m.after stage₂ ∧ (Told stage₂ → Told stage) := by
  induction hc generalizing stage with
  | nil => cases hm
  | @snoc moves s s' step hc ht ih =>
    obtain ⟨stage₁, hstands, -⟩ := stands_course h₀ hc
    rcases List.mem_append.1 hm with hm | hm
    · obtain ⟨htakes, hbefore, stage₂, hafter, htold⟩ := ih hstands hm
      refine ⟨htakes, hbefore, stage₂, hafter, fun h => ?_⟩
      by_cases hstep : step = .other
      · subst hstep
        obtain ⟨stage', hstage, hstands'⟩ := stands_of_elsewhere hstands ht
        obtain rfl := hs.stage_eq hstands'
        rcases hstage with rfl | rfl
        · exact htold h
        · exact (htold h).signal
      · obtain ⟨stage', heffect, hstands'⟩ := effect_of_takes hstands hstep ht
        obtain rfl := hs.stage_eq hstands'
        exact told_of_effect heffect (htold h)
    · obtain rfl := List.mem_singleton.1 hm
      exact ⟨ht, ⟨stage₁, hstands⟩, stage, hs, id⟩

/-- Start a download of a file that is known, and let anything happen to the node, its peers and its
files between the steps of the download.

What the download did is known from where it stands. Before it ends it opened one return endpoint
and since then did nothing but ask and wait. It is complete only after a round in which nothing was
missing; then the entry was saved and unmapped and the operator told, in that round only. If the
entry could not be saved, if the download stopped instead, or if there was no return endpoint,
nobody was told anything. After its end it does nothing.

Whenever a step is due it is taken. In every round the download looks what is missing. If something
is, it asks for exactly that, in ascending order and with its return endpoint and the time to live
of the settings: every member that takes what is written to it gets one request for each chunk that
is missing and nothing else. If nothing is missing it ends, and is complete if the disk takes the
file. If it waits and was told to stop, it can stop.

It can be told to stop from the moment it has a return endpoint. Once told, it stays told until it
ends. -/
theorem download_course {s₀ : Node × Disk} {e₀ : Entry}
    (hd : s₀.1.downloads[i]? = some ⟨hash, .spawned⟩) (hv : s₀.1.store.Valid)
    (he : s₀.1.store.lookup hash = some e₀) (hn : s₀.1.peers.members.Nodup)
    (hc : Course i s₀ moves s) :
    (∃ stage, s.1.downloads[i]? = some ⟨hash, stage⟩ ∧ Tells hash moves stage) ∧
    (∀ m ∈ moves, m.step ≠ .other → ∀ stage, m.before.1.downloads[i]? = some ⟨hash, stage⟩ →
      ∃ stage', m.after.1.downloads[i]? = some ⟨hash, stage'⟩ ∧ Effect hash m stage stage') ∧
    (∀ m ∈ moves, ∀ stage stage', m.after.1.downloads[i]? = some ⟨hash, stage⟩ → Told stage →
      s.1.downloads[i]? = some ⟨hash, stage'⟩ → Told stage') := by
  have h₀ : Stands i hash s₀ .spawned := ⟨hd, hv, ⟨e₀, he⟩, hn⟩
  obtain ⟨stage, hstands, htells⟩ := stands_course h₀ hc
  refine ⟨⟨stage, hstands.download, htells⟩, ?_, ?_⟩
  · intro m hm hstep stage₁ hbefore
    obtain ⟨htakes, ⟨stage₂, hstands₂⟩, -⟩ := stands_of_mem h₀ hc hstands hm
    obtain rfl := hstands₂.stage_eq_of_download hbefore
    obtain ⟨stage', heffect, hafter⟩ := effect_of_takes hstands₂ hstep htakes
    exact ⟨stage', hafter.download, heffect⟩
  · intro m hm stage₁ stage' hafter htold hs
    obtain ⟨-, -, stage₂, hstands₂, hkept⟩ := stands_of_mem h₀ hc hstands hm
    obtain rfl := hstands₂.stage_eq_of_download hafter
    obtain rfl := hstands.stage_eq_of_download hs
    exact hkept htold

/-- Of a file of three bytes nothing is there yet. A download asks its one peer for all chunks and
waits; meanwhile the last chunk arrives, which has all of the bytes; the download looks again and is
complete. -/
theorem download_course_delivered :
    let e := Entry.ofPeer (.ofContent "f" [1, 2, 3]) "f"
    let hash := e.descriptor.hash
    ∃ (n : Node) (moves : List Move) (s : Node × Disk),
      n.downloads[0]? = some ⟨hash, .spawned⟩ ∧ n.store.lookup hash = some e ∧
      Course 0 (n, .empty) moves s ∧
      moves.map Move.step = [.start .isolated, .round, .other, .wake, .round] ∧
      s.1.downloads[0]? = some ⟨hash, .finished .complete⟩ ∧
      Tells hash moves (.finished .complete) ∧ s.1.notices = [.system "File 'f' downloaded!"] ∧
      (s.1.peers.peer? 0).map (·.sink.taken.length) = some (8 * 37) ∧
      s.2.read "f" = .ok [1, 2, 3] := by
  intro e hash
  let near : SocketAddress := ⟨.v4 .unspecified, 0⟩
  let node (store : Store) : Node := { ((Node.new .standard).attach near near .unlimited).2 with
    store, downloads := [⟨hash, .spawned⟩] }
  let delivery : Message := .fileData ⟨hash, 7, 3, [1, 2, 3]⟩
  obtain ⟨store, hstore⟩ : ∃ store, (Store.empty "").insert e = .ok store :=
    (Store.valid_empty "").exists_insert (by decide +kernel) (by decide +kernel)
      (Store.lookup_empty _ _)
  obtain ⟨s₁, s₂, s₃, s₄, s₅, h₁, h₂, h₃, h₄, h₅, hfinal, hnotices, htaken, hread⟩ :
      ∃ s₁ s₂ s₃ s₄ s₅, (Step.start .isolated).Takes 0
        (node (((Store.empty "").insert e).toOption.getD (.empty "")), .empty) s₁ ∧
      Step.round.Takes 0 s₁ s₂ ∧ s₃ = s₂.1.dispatch .isolated s₂.2 0 delivery ∧
      Step.wake.Takes 0 s₃ s₄ ∧ Step.round.Takes 0 s₄ s₅ ∧
      s₅.1.downloads[0]? = some ⟨hash, .finished .complete⟩ ∧
      s₅.1.notices = [.system "File 'f' downloaded!"] ∧
      (s₅.1.peers.peer? 0).map (·.sink.taken.length) = some (8 * 37) ∧
      (s₅.2.read "f").toOption = some [1, 2, 3] :=
    ⟨_, _, _, _, _, rfl, rfl, rfl, rfl, rfl, by decide +kernel, by decide +kernel,
      by decide +kernel, by decide +kernel⟩
  rw [hstore] at h₁
  have hother : Step.other.Takes 0 s₂ s₃ :=
    h₃ ▸ elsewhere_dispatch .isolated s₂.2 s₂.1 0 0 delivery
  have hcourse := ((((Course.nil.snoc h₁).snoc h₂).snoc hother).snoc h₄).snoc h₅
  let s₀ : Node × Disk := (node store, .empty)
  have hspawned : s₀.1.downloads[0]? = some ⟨hash, .spawned⟩ := rfl
  have hvalid : s₀.1.store.Valid := (Store.valid_empty "").insert hstore
  have hknown : s₀.1.store.lookup hash = some e := (Store.valid_empty "").lookup_insert hstore
  have hnodup : s₀.1.peers.members.Nodup := List.nodup_singleton _
  obtain ⟨⟨stage, hstage, htells⟩, -⟩ := download_course hspawned hvalid hknown hnodup hcourse
  rw [hfinal] at hstage
  cases hstage
  exact ⟨node store, _, s₅, hspawned, hknown, hcourse, rfl, hfinal, htells, hnotices, htaken,
    toOption_eq_some_iff.1 hread⟩

end Acquisition

end FileMesh
