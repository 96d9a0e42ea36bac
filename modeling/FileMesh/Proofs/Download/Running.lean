import FileMesh.Proofs.Stopping.Continuing

/-!
# Downloads that run

A node keeps the files for which a download is registered, and every download that was started.
Most of what it does leaves both alone. Otherwise one download of a file that is not registered
starts, or one that runs ends. So the files that are registered are those of the downloads that run,
each of them once.
-/

namespace FileMesh

theorem DownloadStage.isRunning_signal (stage : DownloadStage) :
    stage.signal.isRunning = stage.isRunning := by
  cases stage <;> rfl

/-! ## What stays known -/

namespace Store

variable {s t u : Store} {hash : ContentHash} {e e' : Entry} {name : String}

theorem Valid.keyed_iff (h : s.Valid) :
    s.Keyed ↔ ∀ hash e, s.lookup hash = some e → e.descriptor.hash = hash := by
  constructor
  · exact fun hk hash e hl => hk _ (h.table.get?_eq_some_iff.1 hl)
  · exact fun hk x hx => hk x.1 x.2 (h.table.get?_eq_some_iff.2 hx)

/-- A file that is found by its name is found by its hash. -/
theorem Valid.lookup_of_findByName (h : s.Valid) (hk : s.Keyed) (hf : s.findByName name = some e) :
    s.lookup e.descriptor.hash = some e := by
  have hm : e ∈ s.table.toList.map Prod.snd := List.mem_of_find?_eq_some hf
  obtain ⟨⟨hash, _⟩, hx, rfl⟩ := List.mem_map.1 hm
  rw [hk _ hx]
  exact h.table.get?_eq_some_iff.2 hx

/-- The file that is found under a name has it. -/
theorem name_of_findByName (hf : s.findByName name = some e) : e.descriptor.name = name := by
  simpa using List.find?_some hf

/-- No file that is known under a name is missed. -/
theorem Valid.findByName_eq_none_iff (h : s.Valid) : s.findByName name = none ↔
    ∀ hash e, s.lookup hash = some e → e.descriptor.name ≠ name := by
  rw [findByName, List.find?_eq_none]
  constructor
  · intro hno hash e hl
    have hm : e ∈ s.entries := List.mem_map.2 ⟨(hash, e), h.table.get?_eq_some_iff.1 hl, rfl⟩
    simpa using hno e hm
  · intro hno e hm
    obtain ⟨⟨hash, _⟩, hx, rfl⟩ := List.mem_map.1 hm
    simpa using hno hash _ (h.table.get?_eq_some_iff.2 hx)

/-- What is known stays known, and every entry is kept under its hash. -/
structure Keeps (s t : Store) : Prop where
  known : s.Extends t
  keyed : s.Valid → s.Keyed → t.Keyed

namespace Keeps

theorem refl (s : Store) : s.Keeps s := ⟨.refl s, fun _ => id⟩

theorem trans (h : s.Keeps t) (h' : t.Keeps u) : s.Keeps u :=
  ⟨h.known.trans h'.known, fun hv hk => h'.keyed (h.known hv).1 (h.keyed hv hk)⟩

end Keeps

theorem keeps_insert (hi : s.insert e = .ok t) : s.Keeps t :=
  ⟨extends_insert hi, fun hv hk => hk.insert hv hi⟩

/-- An entry changes, but not its descriptor. -/
theorem keeps_modify (hl : s.lookup hash = some e) (hd : e'.descriptor = e.descriptor) :
    s.Keeps (s.modify hash fun _ => e') := by
  refine ⟨extends_modify hl hd, fun hv hk => ?_⟩
  rw [(hv.modify _ _).keyed_iff]
  rw [hv.keyed_iff] at hk
  intro k x hx
  rw [hv.lookup_modify] at hx
  split at hx
  · rename_i hkey
    obtain ⟨_, -, rfl⟩ := Option.map_eq_some_iff.1 hx
    rw [hd, hk hash e hl, hkey]
  · exact hk k x hx

theorem keeps_saveAll (disk : Disk) (s : Store) : s.Keeps (saveAll disk s).1 := by
  refine ⟨extends_saveAll disk s, fun hv hk => ?_⟩
  rw [(hv.saveAll disk).keyed_iff]
  rw [hv.keyed_iff] at hk
  intro k x hx
  rw [hv.lookup_saveAll] at hx
  obtain ⟨e, he, rfl⟩ := Option.map_eq_some_iff.1 hx
  exact hk k e he

end Store

namespace Node

variable {n n' n'' : Node} {i j : Nat} {hash : ContentHash} {d : Download} {stage : DownloadStage}

/-- Download `i` is one of this file and has not ended. -/
def Runs (n : Node) (i : Nat) (hash : ContentHash) : Prop :=
  ∃ d, n.downloads[i]? = some d ∧ d.hash = hash ∧ d.stage.isRunning = true

theorem Runs.lt_length (h : n.Runs i hash) : i < n.downloads.length := by
  obtain ⟨d, hd, -⟩ := h
  exact (List.getElem?_eq_some_iff.1 hd).1

/-- For each file that is registered one download runs, and no other does. -/
structure Exclusive (n : Node) : Prop where
  eq_of_runs : ∀ {i j hash}, n.Runs i hash → n.Runs j hash → i = j
  mem_registered : ∀ {hash}, hash ∈ n.registered ↔ ∃ i, n.Runs i hash
  nodup : n.registered.Nodup

theorem exclusive_new (config : Config) : (new config).Exclusive where
  eq_of_runs h := absurd h.lt_length (Nat.not_lt_zero _)
  mem_registered := by
    refine fun {hash} => iff_of_false List.not_mem_nil ?_
    rintro ⟨i, h⟩
    exact Nat.not_lt_zero i h.lt_length
  nodup := List.nodup_nil

/-! ## Steps -/

/-- What a step can do to the downloads that run: they stay the same, one of a file that is not
registered starts, or one of them ends. -/
inductive Turn (n n' : Node) : Prop
  | stays (registered : n'.registered = n.registered)
    (runs : ∀ j k, n'.Runs j k ↔ n.Runs j k)
  | starts (hash : ContentHash) (new : hash ∉ n.registered)
    (registered : n'.registered = n.registered ++ [hash])
    (runs : ∀ j k, n'.Runs j k ↔ n.Runs j k ∨ j = n.downloads.length ∧ k = hash)
  | ends (i : Nat) (hash : ContentHash) (ran : n.Runs i hash)
    (registered : n'.registered = n.registered.filter (· != hash))
    (runs : ∀ j k, n'.Runs j k ↔ n.Runs j k ∧ j ≠ i)

/-- Every step keeps the downloads exclusive. -/
theorem Exclusive.turn (h : n.Exclusive) (ht : n.Turn n') : n'.Exclusive := by
  cases ht with
  | stays hregistered hruns =>
    refine ⟨fun hi hj => h.eq_of_runs ((hruns _ _).1 hi) ((hruns _ _).1 hj), fun {k} => ?_, ?_⟩
    · rw [hregistered, h.mem_registered]
      exact exists_congr fun j => (hruns j k).symm
    · rw [hregistered]
      exact h.nodup
  | starts hash hnew hregistered hruns =>
    refine ⟨fun {a b k} ha hb => ?_, fun {k} => ?_, ?_⟩
    · rcases (hruns a k).1 ha with ha | ⟨rfl, rfl⟩ <;> rcases (hruns b _).1 hb with hb | ⟨rfl, hk⟩
      · exact h.eq_of_runs ha hb
      · exact absurd (h.mem_registered.2 ⟨a, hk ▸ ha⟩) hnew
      · exact absurd (h.mem_registered.2 ⟨b, hb⟩) hnew
      · rfl
    · rw [hregistered, List.mem_append, List.mem_singleton, h.mem_registered]
      simp only [hruns, exists_or, exists_eq_left]
    · rw [hregistered]
      exact List.nodup_append.2 ⟨h.nodup, List.nodup_singleton _, fun a ha b hb hab =>
        hnew (List.mem_singleton.1 hb ▸ hab ▸ ha)⟩
  | ends i hash hran hregistered hruns =>
    refine ⟨fun ha hb => h.eq_of_runs ((hruns _ _).1 ha).1 ((hruns _ _).1 hb).1, fun {k} => ?_, ?_⟩
    · rw [hregistered, List.mem_filter, h.mem_registered, bne_iff_ne]
      constructor
      · rintro ⟨⟨j, hj⟩, hk⟩
        refine ⟨j, (hruns j k).2 ⟨hj, ?_⟩⟩
        rintro rfl
        -- One download is one of one file.
        obtain ⟨d, hd, rfl, -⟩ := hj
        obtain ⟨d', hd', rfl, -⟩ := hran
        exact hk (congrArg Download.hash (Option.some.inj (hd.symm.trans hd')))
      · rintro ⟨j, hj⟩
        obtain ⟨hj, hne⟩ := (hruns j k).1 hj
        refine ⟨⟨j, hj⟩, ?_⟩
        rintro rfl
        exact hne (h.eq_of_runs hj hran)
    · rw [hregistered]
      exact h.nodup.filter _

/-- The settings stay, what is known stays known, and at most one download starts or ends. -/
structure Proceeds (n n' : Node) : Prop where
  config : n'.config = n.config
  store : n.store.Keeps n'.store
  turn : n.Turn n'

theorem Turn.of_downloads (hregistered : n'.registered = n.registered)
    (hdownloads : n'.downloads = n.downloads) : n.Turn n' := by
  refine .stays hregistered fun j k => ?_
  rw [Runs, Runs, hdownloads]

/-- What happened before to other parts of the node does not matter. -/
theorem Turn.trans_downloads (hregistered : n'.registered = n.registered)
    (hdownloads : n'.downloads = n.downloads) (h : n'.Turn n'') : n.Turn n'' := by
  have hruns (j : Nat) (k : ContentHash) : n'.Runs j k ↔ n.Runs j k := by
    rw [Runs, Runs, hdownloads]
  cases h with
  | stays hr h => exact .stays (hr.trans hregistered) fun j k => (h j k).trans (hruns j k)
  | starts hash hnew hr h =>
    rw [hregistered] at hnew hr
    refine .starts hash hnew hr fun j k => ?_
    rw [h, hruns, hdownloads]
  | ends i hash hran hr h =>
    rw [hregistered] at hr
    refine .ends i hash ((hruns i hash).1 hran) hr fun j k => ?_
    rw [h, hruns]

namespace Proceeds

/-- Neither the settings nor the downloads are touched. -/
theorem of_eq (hconfig : n'.config = n.config) (hstore : n.store.Keeps n'.store)
    (hregistered : n'.registered = n.registered) (hdownloads : n'.downloads = n.downloads) :
    n.Proceeds n' :=
  ⟨hconfig, hstore, .of_downloads hregistered hdownloads⟩

theorem refl (n : Node) : n.Proceeds n := .of_eq rfl (.refl _) rfl rfl

/-- Neither the settings nor the downloads were touched before. -/
theorem after_eq (h : n'.Proceeds n'') (hconfig : n'.config = n.config)
    (hstore : n.store.Keeps n'.store) (hregistered : n'.registered = n.registered)
    (hdownloads : n'.downloads = n.downloads) : n.Proceeds n'' :=
  ⟨h.config.trans hconfig, hstore.trans h.store, h.turn.trans_downloads hregistered hdownloads⟩

end Proceeds

/-! ## Downloads that go on and end -/

theorem runs_setStage (h : n.downloads[i]? = some d) (stage : DownloadStage) (j : Nat)
    (k : ContentHash) : (n.setStage i stage).Runs j k ↔
      if j = i then d.hash = k ∧ stage.isRunning = true else n.Runs j k := by
  rw [Runs, downloads_setStage h]
  split
  · simp
  · rfl

theorem proceeds_setStage (h : n.downloads[i]? = some d) (hd : d.stage.isRunning = true)
    (hstage : stage.isRunning = true) : n.Proceeds (n.setStage i stage) := by
  refine ⟨rfl, .refl _, .stays rfl fun j k => ?_⟩
  rw [runs_setStage h]
  split
  · rename_i hj
    subst hj
    simp [Runs, h, hd, hstage]
  · rfl

theorem runs_finishDownload (h : n.downloads[i]? = some d) (outcome : DownloadOutcome) (j : Nat)
    (k : ContentHash) : (n.finishDownload i d outcome).Runs j k ↔ n.Runs j k ∧ j ≠ i := by
  have hruns : (n.finishDownload i d outcome).Runs j k ↔
      (n.setStage i (.finished outcome)).Runs j k := Iff.rfl
  rw [hruns, runs_setStage h]
  split
  · rename_i hj
    simp [hj, DownloadStage.isRunning]
  · rename_i hj
    rw [and_iff_left hj]

theorem proceeds_finishDownload (h : n.downloads[i]? = some d) (hd : d.stage.isRunning = true)
    (outcome : DownloadOutcome) : n.Proceeds (n.finishDownload i d outcome) :=
  ⟨rfl, .refl _, .ends i d.hash ⟨d, h, rfl, hd⟩ rfl (runs_finishDownload h outcome)⟩

theorem proceeds_beginDownload (network : Network) (n : Node) (i : Nat) :
    n.Proceeds (n.beginDownload network i) := by
  rw [beginDownload]
  split
  · rename_i hash hd
    split
    · exact proceeds_finishDownload hd rfl _
    · exact proceeds_setStage hd rfl rfl
  · exact .refl n

theorem proceeds_completeDownload {e : Entry} (hlookup : n.store.lookup d.hash = some e)
    (h : n.downloads[i]? = some d) (hd : d.stage.isRunning = true) (disk : Disk) :
    n.Proceeds (n.completeDownload disk i d e).1 := by
  have hstore : n.store.Keeps (n.store.modify d.hash fun _ => (e.save disk).2.1) :=
    Store.keeps_modify hlookup rfl
  let saved := { n with store := n.store.modify d.hash fun _ => (e.save disk).2.1 }
  let told := saved.notify (.system ("File '" ++ e.descriptor.name ++ "' downloaded!"))
  cases hs : (e.save disk).1 with
  | ok _ =>
    have htold : told.downloads[i]? = some d := h
    rw [completeDownload_of_ok hs]
    exact (proceeds_finishDownload htold hd .complete).after_eq rfl hstore rfl rfl
  | error cause =>
    have hsaved : saved.downloads[i]? = some d := h
    rw [completeDownload_of_error hs]
    exact (proceeds_finishDownload hsaved hd _).after_eq rfl hstore rfl rfl

theorem proceeds_runRound (disk : Disk) (n : Node) (i : Nat) :
    n.Proceeds (n.runRound disk i).1 := by
  rw [runRound]
  split
  · rename_i hash ep stopping hd
    split
    · exact .refl n
    · rename_i e hlookup
      dsimp only
      split
      · exact proceeds_completeDownload hlookup hd rfl disk
      · have hasked : (n.requestMissing hash ep (e.verify disk)).downloads[i]? =
            some ⟨hash, .verifying ep stopping⟩ := hd
        have hwaits : (n.requestMissing hash ep (e.verify disk)).Proceeds
            ((n.requestMissing hash ep (e.verify disk)).setStage i (.waiting ep stopping)) :=
          proceeds_setStage hasked rfl rfl
        exact hwaits.after_eq rfl (.refl _) rfl rfl
  · exact .refl n

theorem proceeds_wakeDownload (n : Node) (i : Nat) : n.Proceeds (n.wakeDownload i) := by
  rw [wakeDownload]
  split
  · rename_i hd
    exact proceeds_setStage hd rfl rfl
  · exact .refl n

theorem proceeds_stopDownload (n : Node) (i : Nat) : n.Proceeds (n.stopDownload i) := by
  rw [stopDownload]
  split
  · rename_i hd
    exact proceeds_finishDownload hd rfl .interrupted
  · exact .refl n

theorem proceeds_signal (n : Node) : n.Proceeds n.signal := by
  refine ⟨rfl, .refl _, .stays rfl fun j k => ?_⟩
  have hdownloads : n.signal.downloads[j]? =
      (n.downloads[j]?).map fun d => { d with stage := d.stage.signal } := List.getElem?_map ..
  rw [Runs, Runs, hdownloads]
  cases n.downloads[j]? with
  | none => simp
  | some d => simp [DownloadStage.isRunning_signal]

/-! ## Downloads that start -/

theorem proceeds_refuse (n : Node) (r : Refusal) : n.Proceeds (n.refuse r) :=
  .of_eq rfl (.refl _) rfl rfl

/-- The node with a download of a file that was not registered, and what the operator is told. -/
def started (n : Node) (hash : ContentHash) : Node :=
  { n with
    notices := n.notices ++ [.system "Starting download..."]
    registered := n.registered ++ [hash]
    downloads := n.downloads ++ [⟨hash, .spawned⟩] }

theorem runs_started (n : Node) (hash : ContentHash) (j : Nat) (k : ContentHash) :
    (n.started hash).Runs j k ↔ n.Runs j k ∨ j = n.downloads.length ∧ k = hash := by
  have hdownloads : (n.started hash).downloads[j]? =
      (n.downloads ++ [⟨hash, .spawned⟩])[j]? := rfl
  rw [Runs, hdownloads]
  rcases Nat.lt_trichotomy j n.downloads.length with hlt | rfl | hgt
  · rw [List.getElem?_append_left hlt, or_iff_left fun h => Nat.ne_of_lt hlt h.1]
    rfl
  · rw [List.getElem?_concat_length, or_iff_right fun h => Nat.lt_irrefl _ h.lt_length,
      and_iff_right rfl]
    constructor
    · rintro ⟨d, hd, rfl, -⟩
      rw [← Option.some.inj hd]
    · rintro rfl
      exact ⟨_, rfl, rfl, rfl⟩
  · rw [List.getElem?_eq_none (by rw [List.length_append]; exact hgt)]
    refine iff_of_false (fun h => ?_) ?_
    · obtain ⟨d, hd, -⟩ := h
      cases hd
    · rintro (h | ⟨rfl, -⟩)
      · exact Nat.lt_asymm hgt h.lt_length
      · exact Nat.lt_irrefl _ hgt

theorem proceeds_started (h : hash ∉ n.registered) : n.Proceeds (n.started hash) :=
  ⟨rfl, .refl _, .starts hash h rfl (n.runs_started hash)⟩

theorem register_of_mem (h : hash ∈ n.registered) : n.register hash = .error .inProgress := by
  rw [register, if_pos (List.contains_iff_mem.2 h)]

theorem register_of_not_mem (h : hash ∉ n.registered) :
    n.register hash = .ok (n.downloads.length, n.started hash) := by
  rw [register, if_neg (mt List.contains_iff_mem.1 h)]
  rfl

theorem proceeds_requestDownload (disk : Disk) (n : Node) (name : String) :
    n.Proceeds (n.requestDownload disk name).2 := by
  rw [requestDownload]
  cases n.candidate disk name with
  | error r => exact n.proceeds_refuse r
  | ok e =>
    by_cases hm : e.descriptor.hash ∈ n.registered
    · simp only [Bind.bind, Except.bind, register_of_mem hm]
      exact n.proceeds_refuse .inProgress
    · simp only [Bind.bind, Except.bind, register_of_not_mem hm]
      exact proceeds_started hm

/-! ## What else a node does -/

theorem proceeds_dispatch (network : Network) (disk : Disk) (n : Node) (source : PeerId)
    (m : Message) : n.Proceeds (n.dispatch network disk source m).1 := by
  cases m with
  | fileDef d =>
    rw [dispatch, Gossip.hear]
    cases hlearn : Gossip.learn n.store d with
    | none => exact .refl n
    | some store =>
      have hadd : n.store.add d = .ok store := toOption_eq_some_iff.1 hlearn
      exact .of_eq rfl (Store.keeps_insert hadd) rfl rfl
  | requestFileData r =>
    rw [dispatch]
    cases hholds : Relay.holds n.store disk r with
    | none =>
      rw [Relay.request_of_none hholds]
      exact .of_eq rfl (.refl _) rfl rfl
    | some e =>
      rw [Relay.request_of_some hholds]
      have hlookup : n.store.lookup r.hash = some e := (Option.filter_eq_some_iff.1 hholds).1
      exact .of_eq rfl
        (Store.keeps_modify hlookup (Relay.descriptor_answer network disk e r)) rfl rfl
  | fileData chunk =>
    rw [dispatch, Relay.deliver]
    cases hlookup : n.store.lookup chunk.hash with
    | none => exact .refl n
    | some e =>
      exact .of_eq rfl (Store.keeps_modify hlookup (Relay.descriptor_accept disk e chunk)) rfl rfl
  | requestAddrSelf =>
    rw [dispatch, reportAddress]
    split
    · exact .of_eq rfl (.refl _) rfl rfl
    · exact .refl n
  | addrSelf observed => exact .of_eq rfl (.refl _) rfl rfl

theorem proceeds_share {disk : Disk} {path : String} {descriptor : Descriptor}
    (h : n.share disk path = .ok (descriptor, n')) : n.Proceeds n' := by
  obtain ⟨name, store, -, hshare, rfl⟩ := exists_of_share h
  obtain ⟨-, -, hadd⟩ := Store.exists_openToRead_of_share hshare
  exact .of_eq rfl (Store.keeps_insert hadd) rfl rfl

theorem proceeds_saveAll (disk : Disk) (n : Node) : n.Proceeds (n.saveAll disk).1 :=
  .of_eq rfl (Store.keeps_saveAll disk n.store) rfl rfl

theorem proceeds_attach (n : Node) (remote near : SocketAddress) (sink : Sink) :
    n.Proceeds (n.attach remote near sink).2 := by
  rw [attach]
  cases near.reachableIp? with
  | none => exact .of_eq rfl (.refl _) rfl rfl
  | some ip =>
    simp only [noteInterface]
    split <;> exact .of_eq rfl (.refl _) rfl rfl

theorem proceeds_greet (n : Node) (target : PeerId) : n.Proceeds (n.greet target) := by
  rw [greet]
  split <;> exact .of_eq rfl (.refl _) rfl rfl

theorem proceeds_beginReader (n : Node) (id : PeerId) : n.Proceeds (n.beginReader id) := by
  rw [beginReader]
  split <;> exact .of_eq rfl (.refl _) rfl rfl

theorem proceeds_stopReader (n : Node) (id : PeerId) : n.Proceeds (n.stopReader id) := by
  rw [stopReader]
  split
  · exact .of_eq rfl (.refl _) rfl rfl
  · exact .refl n

end Node

end FileMesh
