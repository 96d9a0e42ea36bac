import FileMesh.Daemon
import FileMesh.Proofs.Disk.Housing
import FileMesh.Proofs.ReturnAddress

/-!
# Where settings come from

A setting may be given by a variable, by the settings file, or by neither of them. The file counts
if all of it can be read; then the variables come before it and the standard settings after it, one
setting at a time. A file that is there and cannot be read takes the variables with it: the daemon
runs with the standard settings alone. So does one that finds a directory in the file's place.
-/

namespace FileMesh

namespace Config

/-- Settings of which only some are given. -/
structure Layer where
  listenAddress : Option SocketAddress
  advertiseIp : Option Ipv4
  peers : Option (List String)
  downloadDir : Option String
  share : Option (List String)
  pollIntervalMs : Option UInt64
  requestTtl : Option UInt8
  maxFrameBytes : Option UInt64

namespace Layer

/-- Nothing is given. -/
def nothing : Layer := ⟨none, none, none, none, none, none, none, none⟩

/-- Each setting that is given, and the others as they are in `c`. -/
def onto (l : Layer) (c : Config) : Config where
  listenAddress := l.listenAddress.getD c.listenAddress
  advertiseIp := l.advertiseIp.or c.advertiseIp
  peers := l.peers.getD c.peers
  downloadDir := l.downloadDir.getD c.downloadDir
  share := l.share.getD c.share
  pollIntervalMs := l.pollIntervalMs.getD c.pollIntervalMs
  requestTtl := l.requestTtl.getD c.requestTtl
  maxFrameBytes := l.maxFrameBytes.getD c.maxFrameBytes

theorem nothing_onto (c : Config) : nothing.onto c = c := rfl

end Layer

end Config

open Config

/-- What the variables give: each of five settings if its variable is set and can be read. -/
def Environment.layer (env : Environment) : Layer :=
  { Layer.nothing with
    listenAddress := env.value? "TRELLIS_NETWORK__LISTEN_ADDR" SocketAddress.parse?
    advertiseIp := env.value? "TRELLIS_NETWORK__ADVERTISE_IP" Ipv4.parse?
    peers := env.value? "TRELLIS_NETWORK__PEERS" (some ∘ peerList)
    downloadDir := env.value? "TRELLIS_STORAGE__DOWNLOAD_DIR" some
    pollIntervalMs := env.value? "TRELLIS_DOWNLOAD__POLL_INTERVAL_MS" milliseconds? }

namespace Config

variable {c c' : Config} {entries : Toml.Entries} {disk : Disk} {path : String}

theorem override_eq_onto (c : Config) (env : Environment) : c.override env = env.layer.onto c := rfl

/-! ## Documents -/

namespace Document

/-- The value under a key of a section whose fields, in order, have these names. -/
def value? (entries : Toml.Entries) (part : String) (names : List String) (key : String) :
    Option Toml.Value :=
  ((entries.lookup part).bind (fields names)).bind (·.lookup key)

/-- What a document gives. -/
def layer (entries : Toml.Entries) : Layer :=
  let network := value? entries "network" ["listen_addr", "advertise_ip", "peers"]
  let storage := value? entries "storage" ["download_dir", "share"]
  let download := value? entries "download" ["poll_interval_ms", "request_ttl"]
  let limits := value? entries "limits" ["max_frame_bytes"]
  { listenAddress := (network "listen_addr").bind socketAddress
    advertiseIp := (network "advertise_ip").bind ipv4
    peers := (network "peers").bind texts
    downloadDir := (storage "download_dir").bind text
    share := (storage "share").bind texts
    pollIntervalMs := (download "poll_interval_ms").bind word
    requestTtl := (download "request_ttl").bind byte
    maxFrameBytes := (limits "max_frame_bytes").bind word }

variable {α : Type} {read : Toml.Value → Option α} {v : Option Toml.Value} {a fallback : α}

theorem eq_bind_of_optional {given : Option α} (h : optional read v = some given) :
    given = v.bind read := by
  cases v with
  | none => exact (Option.some.inj h).symm
  | some v =>
    obtain ⟨a, ha, rfl⟩ := Option.map_eq_some_iff.1 h
    exact ha.symm

theorem eq_getD_of_orElse (h : orElse read fallback v = some a) :
    a = (v.bind read).getD fallback := by
  obtain ⟨given, hgiven, rfl⟩ := Option.map_eq_some_iff.1 h
  rw [eq_bind_of_optional hgiven]

theorem eq_of_network (h : applyTo network c (entries.lookup "network") = some c') :
    c' = { c with
      listenAddress := (layer entries).listenAddress.getD c.listenAddress
      advertiseIp := (layer entries).advertiseIp.or c.advertiseIp
      peers := (layer entries).peers.getD c.peers } := by
  simp only [layer, value?]
  cases hsection : entries.lookup "network" with
  | none =>
    rw [hsection] at h
    exact (Option.some.inj h).symm
  | some v =>
    rw [hsection, applyTo, network] at h
    obtain ⟨given, hgiven, h⟩ := Option.bind_eq_some_iff.1 h
    obtain ⟨listenAddress, hlisten, h⟩ := Option.bind_eq_some_iff.1 h
    obtain ⟨advertiseIp, hadvertise, h⟩ := Option.bind_eq_some_iff.1 h
    obtain ⟨peers, hpeers, h⟩ := Option.bind_eq_some_iff.1 h
    rw [← Option.some.inj h, eq_getD_of_orElse hlisten, eq_bind_of_optional hadvertise,
      eq_getD_of_orElse hpeers, Option.bind_some, hgiven]
    rfl

theorem eq_of_storage (h : applyTo storage c (entries.lookup "storage") = some c') :
    c' = { c with
      downloadDir := (layer entries).downloadDir.getD c.downloadDir
      share := (layer entries).share.getD c.share } := by
  simp only [layer, value?]
  cases hsection : entries.lookup "storage" with
  | none =>
    rw [hsection] at h
    exact (Option.some.inj h).symm
  | some v =>
    rw [hsection, applyTo, storage] at h
    obtain ⟨given, hgiven, h⟩ := Option.bind_eq_some_iff.1 h
    obtain ⟨downloadDir, hdir, h⟩ := Option.bind_eq_some_iff.1 h
    obtain ⟨share, hshare, h⟩ := Option.bind_eq_some_iff.1 h
    rw [← Option.some.inj h, eq_getD_of_orElse hdir, eq_getD_of_orElse hshare, Option.bind_some,
      hgiven]
    rfl

theorem eq_of_download (h : applyTo download c (entries.lookup "download") = some c') :
    c' = { c with
      pollIntervalMs := (layer entries).pollIntervalMs.getD c.pollIntervalMs
      requestTtl := (layer entries).requestTtl.getD c.requestTtl } := by
  simp only [layer, value?]
  cases hsection : entries.lookup "download" with
  | none =>
    rw [hsection] at h
    exact (Option.some.inj h).symm
  | some v =>
    rw [hsection, applyTo, download] at h
    obtain ⟨given, hgiven, h⟩ := Option.bind_eq_some_iff.1 h
    obtain ⟨pollIntervalMs, hpoll, h⟩ := Option.bind_eq_some_iff.1 h
    obtain ⟨requestTtl, httl, h⟩ := Option.bind_eq_some_iff.1 h
    rw [← Option.some.inj h, eq_getD_of_orElse hpoll, eq_getD_of_orElse httl, Option.bind_some,
      hgiven]
    rfl

theorem eq_of_limits (h : applyTo limits c (entries.lookup "limits") = some c') :
    c' = { c with maxFrameBytes := (layer entries).maxFrameBytes.getD c.maxFrameBytes } := by
  simp only [layer, value?]
  cases hsection : entries.lookup "limits" with
  | none =>
    rw [hsection] at h
    exact (Option.some.inj h).symm
  | some v =>
    rw [hsection, applyTo, limits] at h
    obtain ⟨given, hgiven, h⟩ := Option.bind_eq_some_iff.1 h
    obtain ⟨maxFrameBytes, hmax, h⟩ := Option.bind_eq_some_iff.1 h
    rw [← Option.some.inj h, eq_getD_of_orElse hmax, Option.bind_some, hgiven]
    rfl

end Document

open Document

/-- A document that can be read gives its settings, and the others are standard. -/
theorem eq_onto_of_ofEntries? (h : ofEntries? entries = some c) :
    c = (layer entries).onto standard := by
  obtain ⟨c₁, hnetwork, h⟩ := Option.bind_eq_some_iff.1 h
  obtain ⟨c₂, hstorage, h⟩ := Option.bind_eq_some_iff.1 h
  obtain ⟨c₃, hdownload, hlimits⟩ := Option.bind_eq_some_iff.1 h
  rw [eq_of_limits hlimits, eq_of_download hdownload, eq_of_storage hstorage,
    eq_of_network hnetwork]
  rfl

/-! ## Files -/

/-- What a file holds if it is a TOML document. -/
def entries? (disk : Disk) (path : String) : Option Toml.Entries := do
  let bytes ← (disk.read path).toOption
  let document ← (Utf8.decode bytes).toOption
  Toml.parse? document

/-- What a file gives; nothing unless all of it can be read. -/
def fileLayer (disk : Disk) (path : String) : Layer :=
  match (entries? disk path).filter fun entries => (ofEntries? entries).isSome with
  | some entries => layer entries
  | none => .nothing

theorem toOption_readFile (disk : Disk) (path : String) :
    (readFile disk path).toOption = (entries? disk path).bind ofEntries? := by
  rw [readFile, entries?]
  cases disk.read path with
  | error cause => rfl
  | ok bytes =>
    simp only [Except.toOption, bind, Option.bind]
    cases Utf8.decode bytes with
    | error at_ => rfl
    | ok document =>
      simp only [parse?, bind, Option.bind]
      cases Toml.parse? document with
      | none => rfl
      | some entries =>
        simp only
        cases ofEntries? entries <;> rfl

theorem eq_onto_of_readFile (h : readFile disk path = .ok c) :
    c = (fileLayer disk path).onto standard := by
  have hread := toOption_readFile disk path
  rw [h] at hread
  obtain ⟨entries, hentries, hc⟩ := Option.bind_eq_some_iff.1 hread.symm
  rw [fileLayer, hentries, Option.filter_some, hc]
  exact eq_onto_of_ofEntries? hc

theorem fileLayer_of_readFile {e : ConfigError} (h : readFile disk path = .error e) :
    fileLayer disk path = .nothing := by
  have hread := toOption_readFile disk path
  rw [h] at hread
  rw [fileLayer]
  cases hentries : entries? disk path with
  | none => rfl
  | some entries =>
    rw [hentries] at hread
    rw [Option.filter_some, show ofEntries? entries = none from hread.symm]
    rfl

end Config

/-! ## Writing the file that is missing -/

namespace Disk

variable {d d' : Disk} {path : String} {bytes : Bytes}

theorem exists?_of_target (h : ∀ place, d.target path ≠ .ok place) : d.exists? path = false := by
  rw [exists?, resolve]
  cases ht : d.target path with
  | error cause => rfl
  | ok place => exact absurd ht (h place)

theorem read_write (hd : d.WellFormed) (h : d.write path bytes = .ok d') :
    d'.read path = .ok bytes := by
  obtain ⟨⟨id, d₁⟩, hopen, hset⟩ := Except.bind_eq_ok_iff.1 h
  cases hset
  obtain ⟨-, hd₁, hsep, -, place, ht, hk⟩ := openOrCreate_spec hd hopen
  have hplace : (d₁.setContent id bytes).target path = .ok place :=
    (le_setFile d₁ id _).target ht
  refine read_eq_ok_iff.2 ⟨id, openToRead_of_target hplace hk hsep, ?_⟩
  rw [content_setContent_of_lt (hd₁.file_lt hk)]

/-- A file that cannot be written is not there, unless a directory is in its place. -/
theorem exists?_or_isDirectory_of_write (hd : d.WellFormed) {cause : IoError}
    (h : d.write path bytes = .error cause) :
    d.exists? path = false ∨ d.isDirectory path = true := by
  cases hr : d.resolve path with
  | error cause => exact .inl (by rw [exists?, hr])
  | ok found =>
    obtain ⟨place, kind⟩ := found
    cases kind with
    | directory => exact .inr (by rw [isDirectory, hr])
    | file id =>
      -- A file that is there can be opened.
      have hread : d.openToRead path = .ok (.file id) := by rw [openToRead, hr]; rfl
      have hbound := hd.bound_of_openToRead hread
      rw [write, hbound.openOrCreate] at h
      cases h

/-- A file that was to be written has its bytes, or it is not there, or a directory is in its place.
-/
theorem read_install_or (hd : d.WellFormed) (path : String) (bytes : Bytes) :
    (d.install path bytes).2.read path = .ok bytes ∨
      (d.install path bytes).2.exists? path = false ∨
      (d.install path bytes).2.isDirectory path = true := by
  have hfinish {d₁ : Disk} (hd₁ : d₁.WellFormed) :
      (install.finish path bytes d₁).2.read path = .ok bytes ∨
        (install.finish path bytes d₁).2.exists? path = false ∨
        (install.finish path bytes d₁).2.isDirectory path = true := by
    rw [install.finish]
    cases hw : d₁.write path bytes with
    | ok d₂ => exact .inl (read_write hd₁ hw)
    | error cause => exact .inr (exists?_or_isDirectory_of_write hd₁ hw)
  rw [install]
  cases hparent : Path.parent? path with
  | none => exact hfinish hd
  | some parent =>
    have hd₁ := (d.makeDirectories_spec parent).1.wellFormed hd
    obtain ⟨⟨made, d₁⟩, hm⟩ : ∃ r, d.makeDirectories parent = r := ⟨_, rfl⟩
    rw [hm] at hd₁
    simp only [Option.map_some, hm]
    cases made with
    | ok _ => exact hfinish hd₁
    | error cause =>
      -- What could not be made is missing on the way to the file.
      obtain ⟨cause', hagain⟩ := makeDirectories_of_error hm
      exact .inr (.inl (exists?_of_target fun place => target_ne_ok_of_go hparent hagain))

end Disk

/-! ## The settings of a daemon -/

namespace Config

variable {env : Environment} {disk : Disk} {path : String}

theorem writeIfMissing_of_exists (h : disk.exists? env.configPath = true) :
    (writeIfMissing env disk).2 = disk := by
  simp only [writeIfMissing, h, if_true]

theorem writeIfMissing_of_missing (h : disk.exists? env.configPath = false) :
    (writeIfMissing env disk).2 =
      (disk.install env.configPath (Utf8.encode standardDocument)).2 := by
  simp only [writeIfMissing, h]
  rfl

theorem readFile_of_isDirectory (h : disk.isDirectory path = true) :
    disk.exists? path = true ∧ readFile disk path = .error (.readFailed path .isDirectory) := by
  obtain ⟨place, ht, hk⟩ := Disk.isDirectory_iff.1 h
  have hr : disk.resolve path = .ok (place, .directory) := by
    rw [Disk.resolve, ht]
    simp only [bind, Except.bind, hk]
  exact ⟨by rw [Disk.exists?, hr], by rw [readFile, Disk.read, hr]; rfl⟩

theorem readFile_of_read {document : String} {c : Config}
    (h : disk.read path = .ok (Utf8.encode document)) (hc : parse? document = some c) :
    readFile disk path = .ok c := by
  simp only [readFile, h, Utf8.decode_encode, hc]

theorem ofFile_of_read_standard (h : disk.read path = .ok (Utf8.encode standardDocument)) :
    ofFile disk path = .ok standard := by
  have hexists : disk.exists? path = true := by
    rw [Disk.exists?]
    cases hr : disk.resolve path with
    | error cause => rw [Disk.read, hr] at h; cases h
    | ok found => rfl
  rw [ofFile, if_pos hexists]
  exact readFile_of_read h parse?_standardDocument

theorem fileLayer_of_missing (h : disk.exists? path = false) : fileLayer disk path = .nothing := by
  have hread : ∃ cause, disk.read path = .error cause := by
    cases hr : disk.resolve path with
    | error cause => exact ⟨cause, by rw [Disk.read, hr]; rfl⟩
    | ok found => rw [Disk.exists?, hr] at h; cases h
  obtain ⟨cause, hcause⟩ := hread
  rw [fileLayer, entries?, hcause]
  rfl

/-- A file that was missing gives the standard settings once it was to be written, unless there is a
directory in its place then. -/
theorem ofFile_of_missing (hd : disk.WellFormed) (h : disk.exists? env.configPath = false)
    (hdir : (writeIfMissing env disk).2.isDirectory env.configPath = false) :
    ofFile (writeIfMissing env disk).2 env.configPath = .ok standard := by
  rw [writeIfMissing_of_missing h] at hdir ⊢
  rcases Disk.read_install_or hd env.configPath (Utf8.encode standardDocument) with
    hread | hmissing | hthere
  · exact ofFile_of_read_standard hread
  · rw [ofFile, hmissing]
    rfl
  · rw [hdir] at hthere
    cases hthere

end Config

namespace Daemon

variable {network : Network} {env : Environment} {argument : Option String} {disk : Disk} {n : Node}
  {config : Config}

/-- The settings file is there and all of it can be read, or it is missing and no directory is in
its place when it was to be written. -/
def FileUsable (env : Environment) (disk : Disk) : Prop :=
  if disk.exists? env.configPath = true then ∃ c, Config.readFile disk env.configPath = .ok c
  else (Config.writeIfMissing env disk).2.isDirectory env.configPath = false

/-- Each setting from its variable, or else from the settings file, or else the standard one. -/
def layers (env : Environment) (disk : Disk) : Config :=
  env.layer.onto ((fileLayer disk env.configPath).onto .standard)

theorem settings_of_usable (hd : disk.WellFormed) (h : FileUsable env disk) :
    settings env (Config.writeIfMissing env disk).2 = layers env disk := by
  rw [FileUsable] at h
  rw [settings, Config.load, layers]
  cases hexists : disk.exists? env.configPath with
  | true =>
    rw [if_pos hexists] at h
    obtain ⟨c, hc⟩ := h
    rw [writeIfMissing_of_exists hexists, ofFile, if_pos hexists, hc, ← eq_onto_of_readFile hc]
    rfl
  | false =>
    rw [hexists, if_neg Bool.false_ne_true] at h
    rw [ofFile_of_missing hd hexists h, fileLayer_of_missing hexists]
    rfl

theorem settings_of_not_usable (h : ¬ FileUsable env disk) :
    settings env (Config.writeIfMissing env disk).2 = .standard ∧
      fileLayer disk env.configPath = .nothing := by
  rw [FileUsable] at h
  rw [settings, Config.load]
  cases hexists : disk.exists? env.configPath with
  | true =>
    rw [if_pos hexists, not_exists] at h
    rw [writeIfMissing_of_exists hexists, ofFile, if_pos hexists]
    cases hread : Config.readFile disk env.configPath with
    | ok c => exact absurd hread (h c)
    | error e => exact ⟨rfl, fileLayer_of_readFile hread⟩
  | false =>
    rw [hexists, if_neg Bool.false_ne_true, Bool.not_eq_false] at h
    obtain ⟨hthere, hread⟩ := readFile_of_isDirectory h
    rw [ofFile, if_pos hthere, hread]
    exact ⟨rfl, fileLayer_of_missing hexists⟩

/-! ## Starting with settings -/

theorem config_share {path : String} {d : Descriptor} {n' : Node}
    (h : n.share disk path = .ok (d, n')) : n'.config = n.config := by
  obtain ⟨⟨d, scanned⟩, hscan, hannounce⟩ := Except.bind_eq_ok_iff.1 h
  cases hannounce
  rw [Node.scan] at hscan
  split at hscan
  · cases hscan
  · split at hscan
    · cases hscan
    · cases hscan
      rfl

theorem config_connectTo (network : Network) (n : Node) (target : String) :
    (n.connectTo network target).2.config = n.config := by
  rw [Node.connectTo]
  cases Address.resolve target with
  | error cause => rfl
  | ok endpoint => exact (n.sights_connect network endpoint.toSocketAddress).config

theorem config_shareAll (disk : Disk) (n : Node) (paths : List String) :
    (shareAll disk n paths).config = n.config := by
  induction paths generalizing n with
  | nil => rfl
  | cons path paths ih =>
    rw [shareAll, List.foldl_cons, ← shareAll, ih]
    cases hshare : n.share disk path with
    | error cause => rfl
    | ok shared => exact config_share hshare

theorem config_connectAll (network : Network) (n : Node) (targets : List String) :
    (connectAll network n targets).config = n.config := by
  induction targets generalizing n with
  | nil => rfl
  | cons target targets ih => exact (ih _).trans (config_connectTo network n target)

theorem config_launch (h : launch network config argument disk = .ok n) : n.config = config := by
  rw [launch, Node.bind] at h
  cases hlisten : network.openListener (Node.new config).config.listenAddress with
  | error cause =>
    rw [hlisten] at h
    cases h
  | ok address =>
    rw [hlisten] at h
    cases h
    rw [config_connectAll, config_shareAll]
    rfl

/-- A daemon starts with the settings that load, or names their download directory. -/
theorem start_settings (network : Network) (env : Environment) (argument : Option String)
    (disk : Disk) :
    (∀ n, (start network env argument disk).1 = .ok n →
      n.config = settings env (Config.writeIfMissing env disk).2) ∧
    ∀ path cause, (start network env argument disk).1 = .error (.noDownloadDir path cause) →
      path = (settings env (Config.writeIfMissing env disk).2).downloadDir := by
  obtain ⟨⟨written, found⟩, hw⟩ : ∃ r, Config.writeIfMissing env disk = r := ⟨_, rfl⟩
  obtain ⟨config, hconfig⟩ : ∃ c, settings env found = c := ⟨_, rfl⟩
  obtain ⟨⟨made, after⟩, hm⟩ : ∃ r, found.makeDirectories config.downloadDir = r := ⟨_, rfl⟩
  unfold start
  rw [hw]
  simp only [hconfig, hm]
  cases made with
  | error cause =>
    refine ⟨fun n h => (nomatch h), fun path cause h => ?_⟩
    cases h
    rfl
  | ok _ =>
    refine ⟨fun n h => config_launch h, fun path cause h => ?_⟩
    change launch network config argument after = _ at h
    rw [launch] at h
    cases hlisten : (Node.new config).bind network <;> rw [hlisten] at h <;> cases h

/-- Whatever variables are set and whatever is at the place of the settings file, a daemon runs with
each setting from its variable, or else from the file, or else with the standard one, if the file is
usable; if not, it runs with the standard settings, which is the same just when no variable says
anything else. -/
theorem settings_eq_layers_iff (network : Network) (env : Environment) (argument : Option String)
    (hd : disk.WellFormed) :
    let c := settings env (Config.writeIfMissing env disk).2
    (∀ n, (start network env argument disk).1 = .ok n → n.config = c) ∧
    (∀ path cause, (start network env argument disk).1 = .error (.noDownloadDir path cause) →
      path = c.downloadDir) ∧
    (FileUsable env disk → c = layers env disk) ∧
    (¬ FileUsable env disk → c = .standard ∧ layers env disk = env.layer.onto .standard) ∧
    (c = layers env disk ↔ FileUsable env disk ∨ env.layer.onto .standard = .standard) := by
  obtain ⟨hruns, hfails⟩ := start_settings network env argument disk
  have hbroken (h : ¬ FileUsable env disk) :
      settings env (Config.writeIfMissing env disk).2 = .standard ∧
        layers env disk = env.layer.onto .standard := by
    obtain ⟨hstandard, hnothing⟩ := settings_of_not_usable h
    exact ⟨hstandard, by rw [layers, hnothing, Layer.nothing_onto]⟩
  refine ⟨hruns, hfails, settings_of_usable hd, hbroken, ?_⟩
  by_cases h : FileUsable env disk
  · exact iff_of_true (settings_of_usable hd h) (.inl h)
  · obtain ⟨hstandard, hlayers⟩ := hbroken h
    rw [hstandard, hlayers, or_iff_right h, eq_comm]

/-- Two variables, of which one cannot be read, with a file that gives one of the two settings, and
with a file that cannot be read. -/
theorem settings_eq_layers_iff_broken :
    let env : Environment := [("TRELLIS_CONFIG", "c"), ("TRELLIS_STORAGE__DOWNLOAD_DIR", "dl"),
      ("TRELLIS_DOWNLOAD__POLL_INTERVAL_MS", "soon")]
    let disk (text : String) : Disk :=
      ⟨[(["c", "work"], .file 0), (["work"], .directory)], [.ofBytes (Utf8.encode text)], ["work"],
        .pageCounting⟩
    let fine := disk "[download]\npoll_interval_ms = 7\n"
    let broken := disk "["
    fine.WellFormed ∧ broken.WellFormed ∧ FileUsable env fine ∧ ¬ FileUsable env broken ∧
      settings env (Config.writeIfMissing env fine).2 =
        { Config.standard with downloadDir := "dl", pollIntervalMs := 7 } ∧
      settings env (Config.writeIfMissing env broken).2 = .standard ∧
      layers env broken = { Config.standard with downloadDir := "dl" } := by
  intro env disk fine broken
  have hwell (text : String) : (disk text).WellFormed :=
    Disk.wellFormed_empty.write (rfl : Disk.empty.write "c" (Utf8.encode text) = .ok (disk text))
  have hfine : FileUsable env fine := by
    rw [FileUsable, if_pos (by decide +kernel)]
    exact ⟨{ Config.standard with pollIntervalMs := 7 }, by decide +kernel⟩
  have hbroken : ¬ FileUsable env broken := by
    rw [FileUsable, if_pos (by decide +kernel)]
    have hread : Config.readFile broken env.configPath = .error (.parseFailed "c") := by
      decide +kernel
    rw [hread]
    rintro ⟨c, hc⟩
    cases hc
  obtain ⟨-, -, husable, -⟩ :=
    settings_eq_layers_iff .isolated env none (hwell _ : fine.WellFormed)
  obtain ⟨-, -, -, hunusable, -⟩ :=
    settings_eq_layers_iff .isolated env none (hwell _ : broken.WellFormed)
  obtain ⟨hstandard, hlayers⟩ := hunusable hbroken
  refine ⟨hwell _, hwell _, hfine, hbroken, (husable hfine).trans ?_, hstandard, hlayers.trans ?_⟩
  · decide +kernel
  · decide +kernel

end Daemon

end FileMesh
