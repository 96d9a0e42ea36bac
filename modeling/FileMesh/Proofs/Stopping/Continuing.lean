import FileMesh.Proofs.Acquisition
import FileMesh.Proofs.Peer.Release

/-!
# What goes on while a node stops

Messages that are handled, catalogs that are told, rounds of downloads and everything else a node
does on its own have in common what they leave alone: no connection begins or ends to be read, no
peer joins, a healthy peer stays, and no download comes to listen for the stop signal or forgets
that it was told to stop.
-/

namespace FileMesh

/-! ## Downloads -/

namespace DownloadStage

/-- The download has begun, has not ended and was not told to stop. -/
def Untold : DownloadStage → Prop
  | verifying _ stopping => stopping = false
  | waiting _ stopping => stopping = false
  | _ => False

/-- The download has begun, and if it ended it did so on its own. -/
def Unstopped (stage : DownloadStage) : Prop :=
  stage.Untold ∨ ∃ outcome, outcome ≠ .interrupted ∧ stage = finished outcome

/-- After a stop signal everything that had begun was told. -/
theorem not_untold_signal (stage : DownloadStage) : ¬ stage.signal.Untold := by
  cases stage <;> simp [signal, Untold]

end DownloadStage

namespace Node

variable {n n' n'' : Node} {i j : Nat} {d : Download} {stage : DownloadStage}
  {outcome : DownloadOutcome}

/-- The download listens and was not told to stop. -/
def Untold (n : Node) (i : Nat) : Prop := ∃ d, n.downloads[i]? = some d ∧ d.stage.Untold

/-- The download has begun, and if it ended it did so on its own. -/
def Unstopped (n : Node) (i : Nat) : Prop := ∃ d, n.downloads[i]? = some d ∧ d.stage.Unstopped

/-- The download has not begun. -/
def Spawned (n : Node) (i : Nat) : Prop :=
  ∃ d, n.downloads[i]? = some d ∧ d.stage = .spawned

theorem downloads_setStage (h : n.downloads[i]? = some d) (stage : DownloadStage) (j : Nat) :
    (n.setStage i stage).downloads[j]? =
      if j = i then some { d with stage } else n.downloads[j]? := by
  rw [setStage, List.getElem?_modify]
  by_cases hj : j = i
  · simp [hj, h]
  · simp [hj, Ne.symm hj]

/-! ## What is left alone -/

/-- From `n` to `n'` no reading begins or ends, nobody becomes a member, healthy members stay,
no download begins to listen and none is told to stop. -/
structure Continues (n n' : Node) : Prop where
  releases : n.peers.members.Nodup → n.peers.Releases n'.peers
  healthy : n.peers.members.Nodup → ∀ id, n.peers.Healthy id → n'.peers.Healthy id
  readers : n'.readers = n.readers
  untold : ∀ i, n'.Untold i → n.Untold i
  unstopped : ∀ i, n.Unstopped i → n'.Unstopped i

namespace Continues

theorem trans (h : n.Continues n') (h' : n'.Continues n'') : n.Continues n'' where
  releases hn := (h.releases hn).trans (h'.releases (h.releases hn).nodup)
  healthy hn id hid := h'.healthy (h.releases hn).nodup id (h.healthy hn id hid)
  readers := h'.readers.trans h.readers
  untold i hi := h.untold i (h'.untold i hi)
  unstopped i hi := h'.unstopped i (h.unstopped i hi)

/-- Only the connections matter, unless downloads or readings change. -/
theorem of_peers (hreaders : n'.readers = n.readers) (hdownloads : n'.downloads = n.downloads)
    (hreleases : n.peers.members.Nodup → n.peers.Releases n'.peers)
    (hhealthy : n.peers.members.Nodup → ∀ id, n.peers.Healthy id → n'.peers.Healthy id) :
    n.Continues n' where
  releases := hreleases
  healthy := hhealthy
  readers := hreaders
  untold i := by
    rw [Untold, hdownloads]
    exact id
  unstopped i := by
    rw [Unstopped, Unstopped, hdownloads]
    exact id

theorem of_eq (hpeers : n'.peers = n.peers) (hreaders : n'.readers = n.readers)
    (hdownloads : n'.downloads = n.downloads) : n.Continues n' := by
  refine .of_peers hreaders hdownloads (fun hn => ?_) fun _ _ h => ?_
  · rw [hpeers]
    exact .refl hn
  · rwa [hpeers]

theorem refl (n : Node) : n.Continues n := .of_eq rfl rfl rfl

end Continues

/-! ## Messages -/

theorem continues_broadcast (n : Node) (store : Store) (m : Message) (skip : Option PeerId) :
    n.Continues { n with store, peers := (n.peers.broadcast m skip).2 } :=
  .of_peers rfl rfl (PeerSet.releases_broadcast · m skip) fun hn _ h => h.broadcast hn m skip

theorem continues_dispatch (network : Network) (disk : Disk) (n : Node) (source : PeerId)
    (m : Message) : n.Continues (n.dispatch network disk source m).1 := by
  cases m with
  | fileDef d =>
    rw [dispatch, Gossip.hear]
    cases Gossip.learn n.store d with
    | none => exact .refl n
    | some store => exact n.continues_broadcast store _ _
  | requestFileData r =>
    rw [dispatch]
    cases hholds : Relay.holds n.store disk r with
    | none =>
      rw [Relay.request_of_none hholds]
      exact n.continues_broadcast n.store _ _
    | some e =>
      rw [Relay.request_of_some hholds]
      exact .of_eq rfl rfl rfl
  | fileData chunk => exact .of_eq rfl rfl rfl
  | requestAddrSelf =>
    rw [dispatch, reportAddress]
    split
    · exact .of_peers rfl rfl (PeerSet.releases_send · source _) fun _ _ h => h.send source _
    · exact .refl n
  | addrSelf observed => exact .of_eq rfl rfl rfl

/-- A peer that cannot be told the catalog leaves; it was not healthy. -/
theorem continues_greet (n : Node) (target : PeerId) : n.Continues (n.greet target) := by
  rw [greet, Gossip.sendCatalog]
  cases hsend : Gossip.sendAll target n.store.descriptors 0 n.peers with
  | mk result peers =>
    have hpeers : (Gossip.sendAll target n.store.descriptors 0 n.peers).2 = peers := by rw [hsend]
    have htold : n.Continues { n with peers } := by
      rw [← hpeers]
      exact .of_peers rfl rfl (PeerSet.releases_sendAll · target _ _)
        fun _ _ h => h.sendAll target _ _
    cases result with
    | ok sent => exact htold
    | error cause =>
      refine .of_peers rfl rfl (fun hn => ?_) fun hn id hid => ?_
      · exact (htold.releases hn).trans
          (PeerSet.releases_remove (htold.releases hn).nodup target)
      · -- Sending to a healthy member does not fail, so it was another that left.
        have hne : target ≠ id := by
          rintro rfl
          have hok := hid.isOk_sendAll n.store.descriptors 0
          rw [hsend] at hok
          cases hok
        exact (htold.healthy hn id hid).remove_of_ne hne

/-! ## Downloads that go on -/

theorem continues_setStage (h : n.downloads[i]? = some d) (huntold : stage.Untold → d.stage.Untold)
    (hunstopped : d.stage.Unstopped → stage.Unstopped) : n.Continues (n.setStage i stage) where
  releases := .refl
  healthy _ _ hid := hid
  readers := rfl
  untold j := by
    rintro ⟨d', hd', hd'stage⟩
    rw [downloads_setStage h] at hd'
    split at hd'
    · rename_i hj
      cases hd'
      exact ⟨d, hj ▸ h, huntold hd'stage⟩
    · exact ⟨d', hd', hd'stage⟩
  unstopped j := by
    rintro ⟨d', hd', hd'stage⟩
    by_cases hj : j = i
    · subst hj
      obtain rfl := Option.some.inj (h.symm.trans hd')
      exact ⟨_, (downloads_setStage h stage j).trans (if_pos rfl), hunstopped hd'stage⟩
    · exact ⟨d', ((downloads_setStage h stage j).trans (if_neg hj)).trans hd', hd'stage⟩

theorem continues_finishDownload (h : n.downloads[i]? = some d)
    (hunstopped : d.stage.Unstopped → outcome ≠ .interrupted) (e : Download) :
    n.Continues (n.finishDownload i e outcome) :=
  (continues_setStage h False.elim fun hd => .inr ⟨outcome, hunstopped hd, rfl⟩).trans
    (.of_eq rfl rfl rfl)

theorem continues_requestMissing (n : Node) (hash : ContentHash) (ep : Endpoint)
    (v : VerifiedChunks) : n.Continues (n.requestMissing hash ep v) := by
  rw [requestMissing]
  generalize Download.requests hash ep n.config.requestTtl v = requests
  induction requests generalizing n with
  | nil => exact .refl n
  | cons r requests ih =>
    exact (n.continues_broadcast n.store (.requestFileData r) none).trans
      (ih { n with peers := (n.peers.broadcast (.requestFileData r) none).2 })

theorem continues_completeDownload (h : n.downloads[i]? = some d) (disk : Disk) (e : Entry) :
    n.Continues (n.completeDownload disk i d e).1 := by
  let saved := { n with store := n.store.modify d.hash fun _ => (e.save disk).2.1 }
  let told := saved.notify (.system ("File '" ++ e.descriptor.name ++ "' downloaded!"))
  cases hs : (e.save disk).1 with
  | ok _ =>
    have htold : told.downloads[i]? = some d := h
    have hsame : n.Continues told := .of_eq rfl rfl rfl
    rw [completeDownload_of_ok hs]
    exact hsame.trans (continues_finishDownload htold (fun _ => DownloadOutcome.noConfusion) d)
  | error cause =>
    have hsaved : saved.downloads[i]? = some d := h
    have hsame : n.Continues saved := .of_eq rfl rfl rfl
    rw [completeDownload_of_error hs]
    exact hsame.trans (continues_finishDownload hsaved (fun _ => DownloadOutcome.noConfusion) d)

theorem continues_runRound (disk : Disk) (n : Node) (i : Nat) :
    n.Continues (n.runRound disk i).1 := by
  rw [runRound]
  split
  · rename_i hash ep stopping hd
    split
    · exact .refl n
    · rename_i e _
      dsimp only
      split
      · exact continues_completeDownload hd disk e
      · have hd' : (n.requestMissing hash ep (e.verify disk)).downloads[i]? =
            some ⟨hash, .verifying ep stopping⟩ := hd
        have hsame : (DownloadStage.verifying ep stopping).Unstopped →
            (DownloadStage.waiting ep stopping).Unstopped := by
          simp [DownloadStage.Unstopped, DownloadStage.Untold]
        exact (n.continues_requestMissing hash ep _).trans (continues_setStage hd' id hsame)
  · exact .refl n

theorem continues_wakeDownload (n : Node) (i : Nat) : n.Continues (n.wakeDownload i) := by
  rw [wakeDownload]
  split
  · rename_i hash ep stopping hd
    have hsame : (DownloadStage.waiting ep stopping).Unstopped →
        (DownloadStage.verifying ep stopping).Unstopped := by
      simp [DownloadStage.Unstopped, DownloadStage.Untold]
    exact continues_setStage hd id hsame
  · exact .refl n

theorem continues_stopDownload (n : Node) (i : Nat) : n.Continues (n.stopDownload i) := by
  rw [stopDownload]
  split
  · rename_i hash ep hd
    have htold : ¬ (DownloadStage.waiting ep true).Unstopped := by
      simp [DownloadStage.Unstopped, DownloadStage.Untold]
    exact continues_finishDownload hd (fun h => absurd h htold) _
  · exact .refl n

/-- A download that is started has not begun. -/
theorem continues_requestDownload (disk : Disk) (n : Node) (name : String) :
    n.Continues (n.requestDownload disk name).2 := by
  rw [requestDownload]
  cases n.candidate disk name with
  | error r => exact .of_eq rfl rfl rfl
  | ok e =>
    simp only [register, Bind.bind, Except.bind]
    split
    · rename_i k n' heq
      split at heq
      · cases heq
      · cases heq
        refine ⟨.refl, fun _ _ hid => hid, rfl, fun j => ?_, fun j => ?_⟩
        · rintro ⟨d, hd, hstage⟩
          have hd : (n.downloads ++ [⟨e.descriptor.hash, .spawned⟩])[j]? = some d := hd
          rw [List.getElem?_append] at hd
          split at hd
          · exact ⟨d, hd, hstage⟩
          · obtain rfl := List.mem_singleton.1 (List.mem_of_getElem? hd)
            exact hstage.elim
        · rintro ⟨d, hd, hstage⟩
          obtain ⟨hlt, -⟩ := List.getElem?_eq_some_iff.1 hd
          exact ⟨d, (List.getElem?_append_left hlt).trans hd, hstage⟩
    · exact .of_eq rfl rfl rfl

/-! ## Downloads that begin -/

theorem beginDownload_of_not_spawned (h : ¬ n.Spawned i) (network : Network) :
    n.beginDownload network i = n := by
  rw [beginDownload]
  split
  · rename_i hash hd
    exact absurd ⟨_, hd, rfl⟩ h
  · rfl

theorem peers_beginDownload (network : Network) (n : Node) (i : Nat) :
    (n.beginDownload network i).peers = n.peers ∧
      (n.beginDownload network i).readers = n.readers := by
  rw [beginDownload]
  split
  · split <;> exact ⟨rfl, rfl⟩
  · exact ⟨rfl, rfl⟩

/-- A download that begins either listens from then on or has failed. -/
theorem beginDownload_of_spawned (h : n.Spawned i) (network : Network) :
    ∃ hash stage registered, n.downloads[i]? = some ⟨hash, .spawned⟩ ∧ stage.Unstopped ∧
      n.beginDownload network i = { n.setStage i stage with registered } := by
  obtain ⟨⟨hash, _⟩, hd, rfl⟩ := h
  cases hopen : network.openListener (n.config.listenAddress.withPort 0) with
  | error cause =>
    refine ⟨hash, .finished (.failed cause), n.registered.filter (· != hash), hd,
      .inr ⟨_, by simp, rfl⟩, ?_⟩
    simp only [beginDownload, hd, hopen]
    rfl
  | ok address =>
    refine ⟨hash, .verifying ⟨n.returnIp, address.port⟩ false, n.registered, hd, .inl rfl, ?_⟩
    simp only [beginDownload, hd, hopen]
    rfl

end Node

end FileMesh
