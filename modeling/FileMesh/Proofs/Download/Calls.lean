import FileMesh.Proofs.Download.Running
import FileMesh.Proofs.Stopping.Interleaving

/-!
# One download for each file

A call of an operator who wants a file takes three steps: the file is looked for by its name, it is
checked, and then a download is registered and started or refused. Other calls, downloads and
everything else a node does may come between them, and a download that has started ends some time
later, for whatever reason. Each step is one thing, so two calls that have both found a file
incomplete register it one after the other, and the second one is refused.
-/

namespace FileMesh

/-- How far a call is: the file was found, it was checked, with a flag that says that every chunk
was there, or the call was answered, with the number of a download or with a reason. -/
inductive CallStage where
  | found (d : Descriptor)
  | checked (d : Descriptor) (complete : Bool)
  | answered (answer : Except Node.Refusal Nat)

/-- The file of a call that is not answered. -/
def CallStage.file? : CallStage → Option Descriptor
  | found d => some d
  | checked d _ => some d
  | answered _ => none

/-- A node at work, with the calls of the operator in the order in which they were made. -/
structure Asking extends Stopping where
  calls : List CallStage

namespace Asking

open Node (Refusal)

variable {s s' : Asking} {config : Config} {d : Descriptor} {complete : Bool} {k : Nat}
  {hash : ContentHash}

/-! ## What can happen -/

/-- A call begins: the file is looked for. -/
def ask (s : Asking) (name : String) : Asking :=
  match s.node.store.findByName name with
  | none =>
    { s with
      node := s.node.refuse .notFound
      calls := s.calls ++ [.answered (.error .notFound)] }
  | some e => { s with calls := s.calls ++ [.found e.descriptor] }

/-- The file of a call is checked. -/
def check (s : Asking) (k : Nat) : Asking :=
  match s.calls[k]? with
  | some (.found d) =>
    match s.node.store.lookup d.hash with
    | some e => { s with calls := s.calls.set k (.checked d (e.verify s.disk).isComplete) }
    | none => s
  | _ => s

/-- A download of a file that was checked is registered and started, or refused. -/
def admission (n : Node) (d : Descriptor) (complete : Bool) : Except Refusal (Nat × Node) :=
  if complete then .error .alreadyComplete
  else if n.config.maxFrameBytes < Download.deliveryLength d then .error .tooLarge
  else n.register d.hash

/-- A call ends. -/
def settle (s : Asking) (k : Nat) : Asking :=
  match s.calls[k]? with
  | some (.checked d complete) =>
    match admission s.node d complete with
    | .ok (i, n) => { s with node := n, calls := s.calls.set k (.answered (.ok i)) }
    | .error r =>
      { s with node := s.node.refuse r, calls := s.calls.set k (.answered (.error r)) }
  | _ => s

/-- A download that runs ends, for whatever reason. -/
def finish (s : Asking) (i : Nat) (outcome : DownloadOutcome) : Asking :=
  match s.node.downloads[i]? with
  | some d => if d.stage.isRunning then { s with node := s.node.finishDownload i d outcome } else s
  | none => s

/-- A file of this host is shared. -/
def share (s : Asking) (path : String) : Asking :=
  match s.node.share s.disk path with
  | .ok (_, n) => { s with node := n }
  | .error _ => s

/-- What can happen: a call begins, its file is checked, or it ends; a download ends, for whatever
reason; a file of this host is shared; files change; and the node works, that is its downloads, its
peers and their messages, and its shutdown. -/
inductive Event where
  | ask (name : String)
  | check (k : Nat)
  | settle (k : Nat)
  | finish (i : Nat) (outcome : DownloadOutcome)
  | share (path : String)
  | files (disk : Disk)
  | work (network : Network) (event : Stopping.Event)

/-- What one event does. -/
def step (s : Asking) : Event → Asking
  | .ask name => s.ask name
  | .check k => s.check k
  | .settle k => s.settle k
  | .finish i outcome => s.finish i outcome
  | .share path => s.share path
  | .files disk => { s with disk }
  | .work network event => { s with toStopping := Stopping.step network s.toStopping event }

/-- What one event after the other does. -/
def run (s : Asking) (events : List Event) : Asking := events.foldl step s

/-- What becomes of a node that has done nothing yet. -/
def after (config : Config) (disk : Disk) (events : List Event) : Asking :=
  run ⟨.start (.new config) disk, []⟩ events

/-! ## Every step -/

theorem proceeds_work (network : Network) (s : Stopping) (event : Stopping.Event) :
    s.node.Proceeds (Stopping.step network s event).node := by
  cases event with
  | signal =>
    rw [Stopping.step, Stopping.signal]
    split
    · exact s.node.proceeds_signal
    · exact .refl s.node
  | list =>
    rw [Stopping.step, Stopping.list]
    split <;> exact .refl s.node
  | remove =>
    rw [Stopping.step, Stopping.remove]
    split
    · exact .of_eq rfl (.refl _) rfl rfl
    · exact .refl s.node
  | save =>
    rw [Stopping.step, Stopping.save]
    split
    · exact s.node.proceeds_saveAll s.disk
    · exact .refl s.node
  | request name => exact s.node.proceeds_requestDownload s.disk name
  | begin i => exact s.node.proceeds_beginDownload network i
  | round i => exact s.node.proceeds_runRound s.disk i
  | wake i => exact s.node.proceeds_wakeDownload i
  | halt i => exact s.node.proceeds_stopDownload i
  | attach c => exact s.node.proceeds_attach c.remote c.near c.sink
  | greet id => exact s.node.proceeds_greet id
  | read id =>
    rw [Stopping.step, Stopping.read]
    split
    · exact s.node.proceeds_beginReader id
    · exact .refl s.node
  | receive id m =>
    rw [Stopping.step, Stopping.receive]
    split
    · exact s.node.proceeds_dispatch network s.disk id m
    · exact .refl s.node
  | hangUp id =>
    rw [Stopping.step, Stopping.hangUp]
    split
    · exact .of_eq rfl (.refl _) rfl rfl
    · exact .refl s.node
  | leave id => exact s.node.proceeds_stopReader id

/-- A download is registered if there is none of the file, and it is the next one. -/
theorem admission_eq_ok_iff {n n' : Node} {i : Nat} : admission n d complete = .ok (i, n') ↔
    complete = false ∧ ¬ n.config.maxFrameBytes < Download.deliveryLength d ∧
      d.hash ∉ n.registered ∧ i = n.downloads.length ∧ n' = n.started d.hash := by
  rw [admission]
  cases complete with
  | true => simp
  | false =>
    by_cases hlarge : n.config.maxFrameBytes < Download.deliveryLength d
    · simp [hlarge]
    · by_cases hm : d.hash ∈ n.registered
      · simp [hlarge, hm, Node.register_of_mem hm]
      · simp [hlarge, hm, Node.register_of_not_mem hm, eq_comm]

/-- A file that was checked is refused for the first reason there is. -/
theorem admission_eq_error_iff {n : Node} {r : Refusal} : admission n d complete = .error r ↔
    complete = true ∧ r = .alreadyComplete ∨
    complete = false ∧ n.config.maxFrameBytes < Download.deliveryLength d ∧ r = .tooLarge ∨
    complete = false ∧ ¬ n.config.maxFrameBytes < Download.deliveryLength d ∧
      d.hash ∈ n.registered ∧ r = .inProgress := by
  rw [admission]
  cases complete with
  | true => simp [eq_comm]
  | false =>
    by_cases hlarge : n.config.maxFrameBytes < Download.deliveryLength d
    · simp [hlarge, eq_comm]
    · by_cases hm : d.hash ∈ n.registered
      · simp [hlarge, hm, Node.register_of_mem hm, eq_comm]
      · simp [hlarge, hm, Node.register_of_not_mem hm]

theorem proceeds_step (s : Asking) (event : Event) : s.node.Proceeds (s.step event).node := by
  cases event with
  | ask name =>
    rw [step, ask]
    split
    · exact s.node.proceeds_refuse .notFound
    · exact .refl s.node
  | check k =>
    rw [step, check]
    split
    · split <;> exact .refl s.node
    · exact .refl s.node
  | settle k =>
    rw [step, settle]
    split
    · split
      · rename_i hsettle
        obtain ⟨-, -, hm, -, rfl⟩ := admission_eq_ok_iff.1 hsettle
        exact Node.proceeds_started hm
      · exact s.node.proceeds_refuse _
    · exact .refl s.node
  | finish i outcome =>
    rw [step, finish]
    split
    · rename_i d hd
      split
      · rename_i hrun
        exact Node.proceeds_finishDownload hd hrun outcome
      · exact .refl s.node
    · exact .refl s.node
  | share path =>
    rw [step, share]
    split
    · rename_i hs
      exact Node.proceeds_share hs
    · exact .refl s.node
  | files disk => exact .refl s.node
  | work network event => exact proceeds_work network s.toStopping event

/-- A call is left alone by everything but its own steps. -/
theorem getElem?_calls_step (hk : k < s.calls.length) (event : Event) (hcheck : event ≠ .check k)
    (hsettle : event ≠ .settle k) : (s.step event).calls[k]? = s.calls[k]? := by
  cases event with
  | ask name =>
    rw [step, ask]
    split <;> exact List.getElem?_append_left hk
  | check j =>
    have hne : j ≠ k := fun h => hcheck (h ▸ rfl)
    rw [step, check]
    split
    · split
      · exact List.getElem?_set_ne hne
      · rfl
    · rfl
  | settle j =>
    have hne : j ≠ k := fun h => hsettle (h ▸ rfl)
    rw [step, settle]
    split
    · split <;> exact List.getElem?_set_ne hne
    · rfl
  | finish i outcome =>
    rw [step, finish]
    split
    · split <;> rfl
    · rfl
  | share path =>
    rw [step, share]
    split <;> rfl
  | files disk => rfl
  | work network event => rfl

/-- A call that is under way has its file from before, or it has just found it. -/
theorem file?_calls_step {event : Event} {c : CallStage} (hc : c ∈ (s.step event).calls)
    (hd : c.file? = some d) : (∃ c' ∈ s.calls, c'.file? = some d) ∨
      ∃ name e, s.node.store.findByName name = some e ∧ e.descriptor = d := by
  have hset {c₀ c₁ : CallStage} {k : Nat} (hm : c ∈ s.calls.set k c₁) (hk : s.calls[k]? = some c₀)
      (hfile : c₁.file? = some d → c₀.file? = some d) : ∃ c' ∈ s.calls, c'.file? = some d := by
    rcases List.mem_or_eq_of_mem_set hm with hm | rfl
    · exact ⟨c, hm, hd⟩
    · exact ⟨c₀, List.mem_of_getElem? hk, hfile hd⟩
  cases event with
  | ask name =>
    rw [step, ask] at hc
    split at hc
    · rcases List.mem_append.1 hc with hc | hc
      · exact .inl ⟨c, hc, hd⟩
      · rw [List.mem_singleton.1 hc] at hd
        cases hd
    · rename_i e he
      rcases List.mem_append.1 hc with hc | hc
      · exact .inl ⟨c, hc, hd⟩
      · rw [List.mem_singleton.1 hc] at hd
        exact .inr ⟨name, e, he, Option.some.inj hd⟩
  | check k =>
    rw [step, check] at hc
    split at hc
    · rename_i hk
      split at hc
      · rename_i e he
        have hc : c ∈ s.calls.set k (.checked _ (e.verify s.disk).isComplete) := hc
        exact .inl (hset hc hk id)
      · exact .inl ⟨c, hc, hd⟩
    · exact .inl ⟨c, hc, hd⟩
  | settle k =>
    rw [step, settle] at hc
    split at hc
    · rename_i hk
      split at hc
      · rename_i i n hsettle
        have hc : c ∈ s.calls.set k (.answered (.ok i)) := hc
        exact .inl (hset hc hk fun h => by cases h)
      · rename_i r hsettle
        have hc : c ∈ s.calls.set k (.answered (.error r)) := hc
        exact .inl (hset hc hk fun h => by cases h)
    · exact .inl ⟨c, hc, hd⟩
  | finish i outcome =>
    rw [step, finish] at hc
    split at hc
    · split at hc <;> exact .inl ⟨c, hc, hd⟩
    · exact .inl ⟨c, hc, hd⟩
  | share path =>
    rw [step, share] at hc
    split at hc <;> exact .inl ⟨c, hc, hd⟩
  | files disk => exact .inl ⟨c, hc, hd⟩
  | work network event => exact .inl ⟨c, hc, hd⟩

/-! ## Every run -/

/-- What holds at every time: the settings are these, the downloads are exclusive, and the files of
calls that are under way are known. -/
structure Orderly (config : Config) (s : Asking) : Prop where
  config : s.node.config = config
  valid : s.node.store.Valid
  keyed : s.node.store.Keyed
  exclusive : s.node.Exclusive
  known : ∀ c ∈ s.calls, ∀ d, c.file? = some d →
    ∃ e, s.node.store.lookup d.hash = some e ∧ e.descriptor = d

namespace Orderly

theorem start (config : Config) (disk : Disk) : Orderly config ⟨.start (.new config) disk, []⟩ where
  config := rfl
  valid := Store.valid_empty _
  keyed := Store.keyed_empty _
  exclusive := Node.exclusive_new config
  known _ hc := absurd hc List.not_mem_nil

theorem step (h : s.Orderly config) (event : Event) : (s.step event).Orderly config := by
  have hproceeds := s.proceeds_step event
  obtain ⟨hvalid, hknown⟩ := hproceeds.store.known h.valid
  refine ⟨hproceeds.config.trans h.config, hvalid, hproceeds.store.keyed h.valid h.keyed,
    h.exclusive.turn hproceeds.turn, fun c hc d hd => ?_⟩
  obtain ⟨e, hl, he⟩ : ∃ e, s.node.store.lookup d.hash = some e ∧ e.descriptor = d := by
    rcases file?_calls_step hc hd with ⟨c', hc', hd'⟩ | ⟨name, e, hf, rfl⟩
    · exact h.known c' hc' d hd'
    · exact ⟨e, h.valid.lookup_of_findByName h.keyed hf, rfl⟩
  obtain ⟨e', hl', he'⟩ := hknown d.hash e hl
  exact ⟨e', hl', he'.trans he⟩

theorem run (h : s.Orderly config) (events : List Event) : (s.run events).Orderly config := by
  induction events generalizing s with
  | nil => exact h
  | cons event events ih => exact ih (h.step event)

end Orderly

theorem orderly_after (config : Config) (disk : Disk) (events : List Event) :
    (after config disk events).Orderly config := (Orderly.start config disk).run events

/-- From one time to another call `k` takes no step. Everything else may happen. -/
def Passes (k : Nat) (s s' : Asking) : Prop :=
  ∃ events : List Event, (∀ event ∈ events, event ≠ .check k ∧ event ≠ .settle k) ∧
    s' = s.run events

theorem Orderly.passes (h : s.Orderly config) (hpasses : Passes k s s') : s'.Orderly config := by
  obtain ⟨events, -, rfl⟩ := hpasses
  exact h.run events

theorem Passes.getElem?_calls {c : CallStage} (h : Passes k s s') (hk : s.calls[k]? = some c) :
    s'.calls[k]? = s.calls[k]? := by
  obtain ⟨events, hevents, rfl⟩ := h
  induction events generalizing s with
  | nil => rfl
  | cons event events ih =>
    obtain ⟨hcheck, hsettle⟩ := hevents event List.mem_cons_self
    have hlt : k < s.calls.length := (List.getElem?_eq_some_iff.1 hk).1
    have hfirst := getElem?_calls_step hlt event hcheck hsettle
    have hrest := fun event' hm => hevents event' (List.mem_cons_of_mem event hm)
    exact (ih (hfirst.trans hk) hrest).trans hfirst

/-! ## The steps of a call -/

/-- The call was answered. -/
def Answers (s : Asking) (k : Nat) (answer : Except Refusal Nat) : Prop :=
  s.calls[k]? = some (.answered answer)

/-- What the last step of a call does, for a file of which every chunk was there or not when it was
checked. The reasons are looked at one after the other, and nothing but one notice comes of a
refusal. A download that is started is the next one, it is registered, and the operator is told. No
file is touched. -/
structure Decides (s s' : Asking) (k : Nat) (d : Descriptor) (complete : Bool) : Prop where
  alreadyComplete_iff : s'.Answers k (.error .alreadyComplete) ↔ complete = true
  tooLarge_iff : s'.Answers k (.error .tooLarge) ↔
    complete = false ∧ s.node.config.maxFrameBytes < Download.deliveryLength d
  inProgress_iff : s'.Answers k (.error .inProgress) ↔ complete = false ∧
    ¬ s.node.config.maxFrameBytes < Download.deliveryLength d ∧ ∃ i, s.node.Runs i d.hash
  started_iff : (∃ i, s'.Answers k (.ok i)) ↔ complete = false ∧
    ¬ s.node.config.maxFrameBytes < Download.deliveryLength d ∧ ¬ ∃ i, s.node.Runs i d.hash
  refuses : ∀ r, s'.Answers k (.error r) →
    s'.node = { s.node with notices := s.node.notices ++ [.system r.text] }
  starts : ∀ i, s'.Answers k (.ok i) →
    i = s.node.downloads.length ∧ s'.node = s.node.started d.hash
  disk : s'.disk = s.disk

/-- The answer of a call that is decided. -/
theorem answers_set_iff (hk : k < s.calls.length) {answer answer' : Except Refusal Nat}
    {w : Stopping} :
    Answers ⟨w, s.calls.set k (.answered answer)⟩ k answer' ↔ answer = answer' := by
  rw [Answers, List.getElem?_set_self hk, Option.some_inj, CallStage.answered.injEq]

/-- What a call that was checked is answered, and what becomes of the node. -/
theorem settle_of_checked (hk : s.calls[k]? = some (.checked d complete)) : s.settle k =
    match admission s.node d complete with
    | .ok (i, n) => { s with node := n, calls := s.calls.set k (.answered (.ok i)) }
    | .error r =>
      { s with node := s.node.refuse r, calls := s.calls.set k (.answered (.error r)) } := by
  rw [settle, hk]

theorem answers_settle_error_iff (hk : s.calls[k]? = some (.checked d complete)) {r : Refusal} :
    (s.settle k).Answers k (.error r) ↔ admission s.node d complete = .error r := by
  have hlt : k < s.calls.length := (List.getElem?_eq_some_iff.1 hk).1
  rw [settle_of_checked hk]
  cases admission s.node d complete with
  | error r' => rw [answers_set_iff hlt, Except.error.injEq, Except.error.injEq]
  | ok x => simp [answers_set_iff hlt]

theorem answers_settle_ok_iff (hk : s.calls[k]? = some (.checked d complete)) {i : Nat} :
    (s.settle k).Answers k (.ok i) ↔ ∃ n, admission s.node d complete = .ok (i, n) := by
  have hlt : k < s.calls.length := (List.getElem?_eq_some_iff.1 hk).1
  rw [settle_of_checked hk]
  cases admission s.node d complete with
  | error r => simp [answers_set_iff hlt]
  | ok x => simp [answers_set_iff hlt, Prod.ext_iff]

theorem decides_settle (h : s.Orderly config) (hk : s.calls[k]? = some (.checked d complete)) :
    Decides s (s.settle k) k d complete := by
  have hruns : d.hash ∈ s.node.registered ↔ ∃ i, s.node.Runs i d.hash :=
    h.exclusive.mem_registered
  constructor
  case alreadyComplete_iff => simp [answers_settle_error_iff hk, admission_eq_error_iff]
  case tooLarge_iff => simp [answers_settle_error_iff hk, admission_eq_error_iff]
  case inProgress_iff => simp [answers_settle_error_iff hk, admission_eq_error_iff, hruns]
  case started_iff => simp [answers_settle_ok_iff hk, admission_eq_ok_iff, hruns]
  case refuses =>
    intro r hr
    rw [answers_settle_error_iff hk] at hr
    rw [settle_of_checked hk, hr]
    rfl
  case starts =>
    intro i hi
    obtain ⟨n, hn⟩ := (answers_settle_ok_iff hk).1 hi
    obtain ⟨-, -, -, hlast, rfl⟩ := admission_eq_ok_iff.1 hn
    rw [settle_of_checked hk, hn]
    exact ⟨hlast, rfl⟩
  case disk =>
    rw [settle_of_checked hk]
    split <;> rfl

/-- Of two calls that both found a file incomplete the second one is refused. -/
theorem inProgress_of_started (h : s.Orderly config) {i j : Nat} (hne : j ≠ k)
    (hj : s.calls[j]? = some (.checked d false)) (hk : s.calls[k]? = some (.checked d false))
    (hstarted : (s.settle j).Answers j (.ok i)) :
    ((s.settle j).settle k).Answers k (.error .inProgress) := by
  have hfirst := decides_settle h hj
  obtain ⟨-, hfits, -⟩ := hfirst.started_iff.1 ⟨i, hstarted⟩
  obtain ⟨-, hnode⟩ := hfirst.starts i hstarted
  have hsettles : (s.settle j).Orderly config := h.step (.settle j)
  have hwaits : (s.settle j).calls[k]? = some (.checked d false) := by
    have hlt : k < s.calls.length := (List.getElem?_eq_some_iff.1 hk).1
    rw [← hk]
    exact getElem?_calls_step hlt (.settle j) nofun fun h => hne (Event.settle.inj h)
  have hregistered : d.hash ∈ (s.settle j).node.registered := by
    rw [hnode]
    exact List.mem_append_right _ (List.mem_singleton_self _)
  refine (decides_settle hsettles hwaits).inProgress_iff.2
    ⟨rfl, ?_, hsettles.exclusive.mem_registered.1 hregistered⟩
  rwa [hsettles.config, ← h.config]

/-- The course of a call for a file by its name. A name that is not known is refused, and nothing
but one notice comes of it. A file that is known is checked as it is then, and the call is decided
by that. Between the steps everything else may happen. -/
structure Course (s : Asking) (name : String) : Prop where
  unknown : s.node.store.findByName name = none →
    (s.ask name).Answers s.calls.length (.error .notFound) ∧
      (s.ask name).node =
        { s.node with notices := s.node.notices ++ [.system Refusal.notFound.text] } ∧
      (s.ask name).disk = s.disk
  known : ∀ e, s.node.store.findByName name = some e →
    (s.ask name).toStopping = s.toStopping ∧
      ∀ s₁, Passes s.calls.length (s.ask name) s₁ →
        (s₁.check s.calls.length).toStopping = s₁.toStopping ∧
        ∃ e₁, s₁.node.store.lookup e.descriptor.hash = some e₁ ∧ e₁.descriptor = e.descriptor ∧
          ∀ s₂, Passes s.calls.length (s₁.check s.calls.length) s₂ →
            Decides s₂ (s₂.settle s.calls.length) s.calls.length e.descriptor
              (e₁.verify s₁.disk).isComplete

theorem ask_of_unknown {name : String} (h : s.node.store.findByName name = none) : s.ask name =
    { s with
      node := s.node.refuse .notFound
      calls := s.calls ++ [.answered (.error .notFound)] } := by
  rw [ask, h]

theorem ask_of_known {name : String} {e : Entry} (h : s.node.store.findByName name = some e) :
    s.ask name = { s with calls := s.calls ++ [.found e.descriptor] } := by
  rw [ask, h]

theorem getElem?_calls_ask {name : String} {e : Entry}
    (h : s.node.store.findByName name = some e) :
    (s.ask name).calls[s.calls.length]? = some (.found e.descriptor) := by
  rw [ask_of_known h]
  exact List.getElem?_concat_length

theorem check_of_found {e : Entry} (hk : s.calls[k]? = some (.found d))
    (hl : s.node.store.lookup d.hash = some e) : s.check k =
      { s with calls := s.calls.set k (.checked d (e.verify s.disk).isComplete) } := by
  simp only [check, hk, hl]

theorem Orderly.course (h : s.Orderly config) (name : String) : s.Course name where
  unknown hf := by
    rw [ask_of_unknown hf]
    exact ⟨List.getElem?_concat_length, rfl, rfl⟩
  known e hf := by
    have hfound := getElem?_calls_ask hf
    refine ⟨by rw [ask_of_known hf], fun s₁ hpasses => ?_⟩
    have hasks : (s.ask name).Orderly config := h.step (.ask name)
    have h₁ : s₁.Orderly config := hasks.passes hpasses
    have hfound₁ : s₁.calls[s.calls.length]? = some (.found e.descriptor) :=
      (hpasses.getElem?_calls hfound).trans hfound
    obtain ⟨e₁, hl, he⟩ := h₁.known _ (List.mem_of_getElem? hfound₁) _ rfl
    have hchecks := check_of_found hfound₁ hl
    refine ⟨by rw [hchecks], e₁, hl, he, fun s₂ hpasses₂ => ?_⟩
    have hchecked : (s₁.check s.calls.length).calls[s.calls.length]? =
        some (.checked e.descriptor (e₁.verify s₁.disk).isComplete) := by
      rw [hchecks]
      exact List.getElem?_set_self (List.getElem?_eq_some_iff.1 hfound₁).1
    have h₂ : s₂.Orderly config := Orderly.passes (h₁.step (.check s.calls.length)) hpasses₂
    exact decides_settle h₂ ((hpasses₂.getElem?_calls hchecked).trans hchecked)

theorem requestDownload_of_unknown {n : Node} {disk : Disk} {name : String}
    (hf : n.store.findByName name = none) :
    n.requestDownload disk name = (.error .notFound, n.refuse .notFound) := by
  simp only [Node.requestDownload, Node.candidate, hf, Bind.bind, Except.bind]

theorem requestDownload_of_known {n : Node} {disk : Disk} {name : String} {e : Entry}
    (hf : n.store.findByName name = some e) : n.requestDownload disk name =
      match admission n e.descriptor (e.verify disk).isComplete with
      | .ok (i, n') => (.ok i, n')
      | .error r => (.error r, n.refuse r) := by
  rw [Node.requestDownload, Node.candidate, hf, admission]
  cases hcomplete : (e.verify disk).isComplete with
  | true => simp [hcomplete, Bind.bind, Except.bind]
  | false =>
    by_cases hlarge : n.config.maxFrameBytes < Download.deliveryLength e.descriptor
    · simp [hcomplete, hlarge, Bind.bind, Except.bind]
    · cases hregister : n.register e.descriptor.hash with
      | error r => simp [hcomplete, hlarge, hregister, Bind.bind, Except.bind]
      | ok started => simp [hcomplete, hlarge, hregister, Bind.bind, Except.bind]

/-- A call that nothing comes between is what the node does at once. -/
theorem run_call (h : s.Orderly config) (name : String) :
    s.run [.ask name, .check s.calls.length, .settle s.calls.length] =
      { s with
        node := (s.node.requestDownload s.disk name).2
        calls := s.calls ++ [.answered (s.node.requestDownload s.disk name).1] } := by
  have hthree : s.run [.ask name, .check s.calls.length, .settle s.calls.length] =
      ((s.ask name).check s.calls.length).settle s.calls.length := rfl
  cases hf : s.node.store.findByName name with
  | none =>
    have hlast : (s.ask name).calls[s.calls.length]? = some (.answered (.error .notFound)) := by
      rw [ask_of_unknown hf]
      exact List.getElem?_concat_length
    have hcheck : (s.ask name).check s.calls.length = s.ask name := by rw [check, hlast]
    have hsettle : (s.ask name).settle s.calls.length = s.ask name := by rw [settle, hlast]
    rw [hthree, hcheck, hsettle, ask_of_unknown hf, requestDownload_of_unknown hf]
  | some e =>
    have hl : s.node.store.lookup e.descriptor.hash = some e :=
      h.valid.lookup_of_findByName h.keyed hf
    have hset (b c : CallStage) : (s.calls ++ [b]).set s.calls.length c = s.calls ++ [c] := by simp
    have hasked := ask_of_known hf
    have hchecks : (s.ask name).check s.calls.length =
        { s with calls := s.calls ++ [.checked e.descriptor (e.verify s.disk).isComplete] } := by
      rw [check_of_found (getElem?_calls_ask hf) (by rwa [hasked]), hasked]
      simp only [hset]
    have hchecked : ((s.ask name).check s.calls.length).calls[s.calls.length]? =
        some (.checked e.descriptor (e.verify s.disk).isComplete) := by
      rw [hchecks]
      exact List.getElem?_concat_length
    rw [hthree, settle_of_checked hchecked, hchecks, requestDownload_of_known hf]
    cases admission s.node e.descriptor (e.verify s.disk).isComplete <;> simp only [hset]

/-! ## One download for each file -/

/-- A download that runs no more leaves none of its file behind. -/
theorem not_runs_of_ended (h : s.Orderly config) {event : Event} {i : Nat}
    (hran : s.node.Runs i hash) (hended : ¬ (s.step event).node.Runs i hash) :
    ¬ ∃ j, (s.step event).node.Runs j hash := by
  rintro ⟨j, hj⟩
  cases (s.proceeds_step event).turn with
  | stays _ hruns => exact hended ((hruns i hash).2 hran)
  | starts _ _ _ hruns => exact hended ((hruns i hash).2 (.inl hran))
  | ends l _ _ _ hruns =>
    have hjran := ((hruns j hash).1 hj).1
    exact hended (h.exclusive.eq_of_runs hjran hran ▸ hj)

theorem not_runs_finish {i : Nat} (hran : s.node.Runs i hash) (outcome : DownloadOutcome) :
    ¬ (s.finish i outcome).node.Runs i hash := by
  obtain ⟨d, hd, rfl, hrun⟩ := hran
  rw [finish, hd]
  dsimp only
  rw [if_pos hrun]
  exact fun h => ((Node.runs_finishDownload hd outcome i d.hash).1 h).2 rfl

/-- One download for each file, whatever happens and in whatever order: at most one download of a
file runs, and the files that are registered are those of the downloads that run. A call finds a
file with the name it was given if one is known, takes its course, and is what the node does at once
if nothing comes between. A download can end with every outcome at any time. When it has ended, in
whatever way, its file is not registered any more, and while no download of a file runs, whether or
not one did, a call for it can start one. -/
structure OneForEach (config : Config) (disk : Disk) : Prop where
  exclusive : ∀ events, (after config disk events).node.Exclusive
  found : ∀ before name e, let s := after config disk before
    s.node.store.findByName name = some e →
      e.descriptor.name = name ∧ s.node.store.lookup e.descriptor.hash = some e
  missed : ∀ before name, let s := after config disk before
    s.node.store.findByName name = none ↔
      ∀ hash e, s.node.store.lookup hash = some e → e.descriptor.name ≠ name
  course : ∀ before name, (after config disk before).Course name
  atOnce : ∀ before name, let s := after config disk before
    s.run [.ask name, .check s.calls.length, .settle s.calls.length] =
      { s with
        node := (s.node.requestDownload s.disk name).2
        calls := s.calls ++ [.answered (s.node.requestDownload s.disk name).1] }
  ends : ∀ before i hash outcome, let s := after config disk before
    s.node.Runs i hash → ¬ (s.step (.finish i outcome)).node.Runs i hash
  frees : ∀ before event i hash, let s := after config disk before
    s.node.Runs i hash → ¬ (s.step event).node.Runs i hash →
      hash ∉ (s.step event).node.registered ∧ ¬ ∃ j, (s.step event).node.Runs j hash
  again : ∀ before name e, let s := after config disk before
    s.node.store.findByName name = some e → (¬ ∃ i, s.node.Runs i e.descriptor.hash) →
      (e.verify s.disk).isComplete = false →
      ¬ config.maxFrameBytes < Download.deliveryLength e.descriptor →
        (s.node.requestDownload s.disk name).1 = .ok s.node.downloads.length

/-- Whatever happens between the steps of the calls, at most one download of each file runs. -/
theorem oneForEach (config : Config) (disk : Disk) : OneForEach config disk where
  exclusive events := (orderly_after config disk events).exclusive
  found before name e hf := by
    have h := orderly_after config disk before
    exact ⟨Store.name_of_findByName hf, h.valid.lookup_of_findByName h.keyed hf⟩
  missed before name := (orderly_after config disk before).valid.findByName_eq_none_iff
  course before name := (orderly_after config disk before).course name
  atOnce before name := run_call (orderly_after config disk before) name
  ends before i hash outcome hran := not_runs_finish hran outcome
  frees before event i hash hran hended := by
    have h := orderly_after config disk before
    have hnone := not_runs_of_ended h hran hended
    exact ⟨mt (h.step event).exclusive.mem_registered.1 hnone, hnone⟩
  again before name e hf hnone hincomplete hfits := by
    have h := orderly_after config disk before
    rw [requestDownload_of_known hf, hincomplete]
    have hsettle : admission (after config disk before).node e.descriptor false =
        .ok (_, (after config disk before).node.started e.descriptor.hash) :=
      admission_eq_ok_iff.2
        ⟨rfl, by rwa [h.config], mt h.exclusive.mem_registered.1 hnone, rfl, rfl⟩
    rw [hsettle]

end Asking

end FileMesh
