import FileMesh.Node.Connection

/-!
# The return address

A node learns own addresses from four sources: its settings, peers that report how it looks from
there, its listener, and the near ends of its connections. Of each source the first word counts. An
address that names no interface is of no use to anybody, and a listener or a near end that has one
is passed over; a report of one is not. So the return address is what it is meant to be unless the
first report that came, from whatever peer, was such an address and the settings say nothing. Then
nobody can dial it, and no later report changes that.
-/

namespace FileMesh

/-- The address of a near end, unless it names no interface or stays inside the host. -/
def SocketAddress.interfaceIp? (near : SocketAddress) : Option Ipv4 :=
  near.reachableIp?.filter (!·.isLoopback)

namespace Node

/-- What can tell a node an own address: it starts to listen, a connection becomes a peer, it
connects to an address, or a message of a peer is handled. -/
inductive AddressEvent where
  | bind (network : Network)
  | attach (remote near : SocketAddress) (sink : Sink)
  | connect (network : Network) (address : SocketAddress)
  | receive (network : Network) (disk : Disk) (source : PeerId) (m : Message)

namespace AddressEvent

/-- The address of the listener that a node with these settings gets. -/
def listener? (config : Config) : AddressEvent → Option SocketAddress
  | bind network => (network.openListener config.listenAddress).toOption
  | _ => none

/-- The address that a peer reports. -/
def reported? : AddressEvent → Option Ipv4
  | receive _ _ _ (.addrSelf observed) => some observed.ip
  | _ => none

/-- The usable address of the near end of a new connection. -/
def near? : AddressEvent → Option Ipv4
  | attach _ near _ => near.interfaceIp?
  | connect network address =>
    (network.connect address).toOption.bind fun dialed => dialed.localAddress.interfaceIp?
  | _ => none

/-- Every source that this event speaks for has spoken before. -/
def Repeats (config : Config) (before : List AddressEvent) (e : AddressEvent) : Prop :=
  (before.findSome? (listener? config) = none → e.listener? config = none) ∧
    (before.findSome? reported? = none → e.reported? = none) ∧
    (before.findSome? near? = none → e.near? = none)

end AddressEvent

open AddressEvent

variable {n n' n'' : Node} {config : Config} {events later : List AddressEvent}

/-- The node after an event. -/
def apply (n : Node) : AddressEvent → Node
  | .bind network => ((n.bind network).toOption.map Prod.snd).getD n
  | .attach remote near sink => (n.attach remote near sink).2
  | .connect network address => (n.connect network address).2
  | .receive network disk source m => (n.dispatch network disk source m).1

/-- The node after one event after the other. -/
def run (n : Node) (events : List AddressEvent) : Node := events.foldl apply n

/-- The return address as it is meant to be: the fixed one, or else the first usable one that a peer
reported, the listener's unless it names no interface, the first usable one of a connection, the
host's own. -/
def preferredIp (config : Config) (events : List AddressEvent) : Ipv4 :=
  (config.advertiseIp.or <|
    (events.findSome? fun e => e.reported?.filter (!·.isUnspecified)).or <|
      ((events.findSome? (listener? config)).bind SocketAddress.reachableIp?).or <|
        events.findSome? near?).getD .loopback

/-- From `n` to `n'` a node was told these own addresses; of each source the first word counts. -/
structure Sights (listener : Option SocketAddress) (reported near : Option Ipv4) (n n' : Node) :
    Prop where
  config : n'.config = n.config
  boundAddress : n'.boundAddress = n.boundAddress.or listener
  learnedIp : n'.learnedIp = n.learnedIp.or reported
  interfaceIp : n'.interfaceIp = n.interfaceIp.or near

theorem Sights.of_eq (hconfig : n'.config = n.config) (hbound : n'.boundAddress = n.boundAddress)
    (hlearned : n'.learnedIp = n.learnedIp) (hinterface : n'.interfaceIp = n.interfaceIp) :
    Sights none none none n n' where
  config := hconfig
  boundAddress := by rw [hbound, Option.or_none]
  learnedIp := by rw [hlearned, Option.or_none]
  interfaceIp := by rw [hinterface, Option.or_none]

/-! ## One event -/

theorem sights_bind (n : Node) (network : Network) :
    Sights (network.openListener n.config.listenAddress).toOption none none n
      (n.apply (.bind network)) := by
  rw [apply, Node.bind]
  cases network.openListener n.config.listenAddress with
  | error cause => exact .of_eq rfl rfl rfl rfl
  | ok address => exact ⟨rfl, rfl, Option.or_none.symm, Option.or_none.symm⟩

theorem sights_attach (n : Node) (remote near : SocketAddress) (sink : Sink) :
    Sights none none near.interfaceIp? n (n.attach remote near sink).2 := by
  rw [attach, SocketAddress.interfaceIp?]
  cases hnear : near.reachableIp? with
  | none => exact .of_eq rfl rfl rfl rfl
  | some ip =>
    have hspecified : ip.isUnspecified = false := by
      simpa using (Option.filter_eq_some_iff.1 hnear).2
    cases hloop : ip.isLoopback with
    | true =>
      simp only [noteInterface, hloop, true_or, if_true, Option.filter_some, Bool.not_true]
      exact .of_eq rfl rfl rfl rfl
    | false =>
      simp only [noteInterface, hloop, hspecified, Bool.false_eq_true, or_self, if_false,
        Option.filter_some, Bool.not_false, if_true]
      exact ⟨rfl, Option.or_none.symm, Option.or_none.symm, rfl⟩

/-- Only the connections change after a peer was added. -/
theorem Sights.withPeers {listener : Option SocketAddress} {reported near : Option Ipv4}
    (h : Sights listener reported near n n') (peers : PeerSet) :
    Sights listener reported near n { n' with peers } :=
  ⟨h.config, h.boundAddress, h.learnedIp, h.interfaceIp⟩

theorem sights_connect (n : Node) (network : Network) (address : SocketAddress) :
    Sights none none (near? (.connect network address)) n (n.connect network address).2 := by
  rw [connect, near?]
  cases network.connect address with
  | error cause => exact .of_eq rfl rfl rfl rfl
  | ok dialed =>
    have hattach := n.sights_attach address dialed.localAddress dialed.sink
    simp only [Except.toOption, Option.bind_some]
    split
    · exact hattach.withPeers _
    · exact hattach.withPeers _

theorem sights_dispatch (n : Node) (network : Network) (disk : Disk) (source : PeerId)
    (m : Message) : Sights none (reported? (.receive network disk source m)) none n
      (n.dispatch network disk source m).1 := by
  cases m with
  | fileDef d => exact .of_eq rfl rfl rfl rfl
  | requestFileData r => exact .of_eq rfl rfl rfl rfl
  | fileData chunk => exact .of_eq rfl rfl rfl rfl
  | requestAddrSelf =>
    rw [dispatch, reportAddress]
    split
    · exact .of_eq rfl rfl rfl rfl
    · exact .of_eq rfl rfl rfl rfl
  | addrSelf observed => exact ⟨rfl, Option.or_none.symm, rfl, Option.or_none.symm⟩

theorem sights_apply (n : Node) (e : AddressEvent) :
    Sights (e.listener? n.config) e.reported? e.near? n (n.apply e) := by
  cases e with
  | bind network => exact n.sights_bind network
  | attach remote near sink => exact n.sights_attach remote near sink
  | connect network address => exact n.sights_connect network address
  | receive network disk source m => exact n.sights_dispatch network disk source m

/-! ## Any number of events -/

theorem sights_run (n : Node) (events : List AddressEvent) :
    Sights (events.findSome? (listener? n.config)) (events.findSome? reported?)
      (events.findSome? near?) n (n.run events) := by
  have first {α : Type} (known : Option α) (f : AddressEvent → Option α) (e : AddressEvent)
      (events : List AddressEvent) : (known.or (f e)).or (events.findSome? f) =
        known.or ((e :: events).findSome? f) := by
    rw [List.findSome?_cons, Option.or_assoc]
    cases f e <;> rfl
  induction events generalizing n with
  | nil => exact .of_eq rfl rfl rfl rfl
  | cons e events ih =>
    have hfirst := n.sights_apply e
    have hrest := ih (n.apply e)
    rw [hfirst.config] at hrest
    exact ⟨hrest.config.trans hfirst.config,
      by rw [run, List.foldl_cons, ← run, hrest.boundAddress, hfirst.boundAddress, first],
      by rw [run, List.foldl_cons, ← run, hrest.learnedIp, hfirst.learnedIp, first],
      by rw [run, List.foldl_cons, ← run, hrest.interfaceIp, hfirst.interfaceIp, first]⟩

theorem returnIp_run (config : Config) (events : List AddressEvent) :
    ((new config).run events).returnIp =
      (config.advertiseIp.or <| (events.findSome? reported?).or <|
        ((events.findSome? (listener? config)).bind SocketAddress.reachableIp?).or <|
          events.findSome? near?).getD .loopback := by
  have h := (new config).sights_run events
  rw [returnIp, h.config, h.boundAddress, h.learnedIp, h.interfaceIp]
  rfl

/-! ## The address that is meant -/

theorem ne_unspecified_of_reachableIp? {address : SocketAddress} {ip : Ipv4}
    (h : address.reachableIp? = some ip) : ip ≠ .unspecified := by
  rintro rfl
  cases (Option.filter_eq_some_iff.1 h).2

theorem ne_unspecified_of_near? {e : AddressEvent} {ip : Ipv4} (h : e.near? = some ip) :
    ip ≠ .unspecified := by
  have hinterface {near : SocketAddress} (h : near.interfaceIp? = some ip) : ip ≠ .unspecified :=
    ne_unspecified_of_reachableIp? (Option.filter_eq_some_iff.1 h).1
  cases e with
  | bind network => cases h
  | attach remote near sink => exact hinterface h
  | connect network address =>
    obtain ⟨dialed, -, h⟩ := Option.bind_eq_some_iff.1 h
    exact hinterface h
  | receive network disk source m => cases h

/-- Unless the settings say so, the address that is meant names an interface. -/
theorem preferredIp_ne_unspecified (h : config.advertiseIp = none) :
    preferredIp config events ≠ .unspecified := by
  have hor {o o' : Option Ipv4} (ho : ∀ ip, o = some ip → ip ≠ .unspecified)
      (ho' : ∀ ip, o' = some ip → ip ≠ .unspecified) (ip : Ipv4) (hip : o.or o' = some ip) :
      ip ≠ .unspecified := by
    rcases Option.or_eq_some_iff.1 hip with hip | ⟨-, hip⟩
    · exact ho ip hip
    · exact ho' ip hip
  have hreported (ip : Ipv4)
      (hip : (events.findSome? fun e => e.reported?.filter (!·.isUnspecified)) = some ip) :
      ip ≠ .unspecified := by
    obtain ⟨e, -, he⟩ := List.exists_of_findSome?_eq_some hip
    rintro rfl
    cases (Option.filter_eq_some_iff.1 he).2
  have hlistener (ip : Ipv4) (hip : (events.findSome? (listener? config)).bind
      SocketAddress.reachableIp? = some ip) : ip ≠ .unspecified := by
    obtain ⟨address, -, haddress⟩ := Option.bind_eq_some_iff.1 hip
    exact ne_unspecified_of_reachableIp? haddress
  have hnear (ip : Ipv4) (hip : events.findSome? near? = some ip) : ip ≠ .unspecified := by
    obtain ⟨e, -, he⟩ := List.exists_of_findSome?_eq_some hip
    exact ne_unspecified_of_near? he
  rw [preferredIp, h, Option.none_or]
  cases hchosen : (events.findSome? fun e => e.reported?.filter (!·.isUnspecified)).or
      (((events.findSome? (listener? config)).bind SocketAddress.reachableIp?).or
        (events.findSome? near?)) with
  | none => decide
  | some ip => exact hor hreported (hor hlistener hnear) ip hchosen

theorem findSome?_filter {α β : Type} {f : α → Option β} {p : β → Bool} {l : List α}
    (h : ∀ b, l.findSome? f = some b → p b = true) :
    (l.findSome? fun a => (f a).filter p) = l.findSome? f := by
  induction l with
  | nil => rfl
  | cons a l ih =>
    rw [List.findSome?_cons] at h ⊢
    rw [List.findSome?_cons]
    cases hf : f a with
    | none =>
      rw [hf] at h
      exact ih h
    | some b =>
      rw [hf] at h
      rw [Option.filter_some, if_pos (h b rfl)]

theorem returnIp_eq_preferredIp (h : config.advertiseIp ≠ none ∨
    events.findSome? reported? ≠ some .unspecified) :
    ((new config).run events).returnIp = preferredIp config events := by
  rw [returnIp_run, preferredIp]
  cases hfixed : config.advertiseIp with
  | some ip => rfl
  | none =>
    rw [findSome?_filter fun ip hip => ?_]
    have hne : ip ≠ .unspecified := fun heq => h.resolve_left (not_not_intro hfixed) (heq ▸ hip)
    simpa [Ipv4.isUnspecified] using hne

theorem returnIp_eq_unspecified (h : config.advertiseIp = none)
    (hfirst : events.findSome? reported? = some .unspecified) :
    ((new config).run events).returnIp = .unspecified := by
  rw [returnIp_run, h, hfirst]
  rfl

theorem preferredIp_eq_unspecified_iff :
    preferredIp config events = .unspecified ↔ config.advertiseIp = some .unspecified := by
  cases hfixed : config.advertiseIp with
  | none => exact iff_of_false (preferredIp_ne_unspecified hfixed) nofun
  | some ip =>
    rw [preferredIp, hfixed]
    exact Option.some_inj.symm

/-- Who speaks later than another of the same kind changes nothing. -/
theorem returnIp_append_of_repeats (h : ∀ e ∈ later, e.Repeats config events) :
    ((new config).run (events ++ later)).returnIp = ((new config).run events).returnIp := by
  have hsame {α : Type} {f : AddressEvent → Option α}
      (hf : ∀ e ∈ later, events.findSome? f = none → f e = none) :
      (events ++ later).findSome? f = events.findSome? f := by
    rw [List.findSome?_append]
    cases hfirst : events.findSome? f with
    | some a => rfl
    | none => exact List.findSome?_eq_none_iff.2 fun e he => hf e he hfirst
  rw [returnIp_run, returnIp_run, hsame fun e he => (h e he).1, hsame fun e he => (h e he).2.1,
    hsame fun e he => (h e he).2.2]

/-- Whatever a new node listens at, whatever connections it gets and whatever its peers say, in any
order: its return address is what it is meant to be unless it is not fixed and the first report
named no interface. Then, and otherwise only if the settings say so, it is the address that names no
interface, which is never meant. Later words of a source change nothing. -/
theorem returnIp_eq_preferredIp_iff (config : Config) (events : List AddressEvent) :
    let n := (new config).run events
    (n.returnIp = preferredIp config events ↔
      config.advertiseIp ≠ none ∨ events.findSome? reported? ≠ some .unspecified) ∧
    (n.returnIp = .unspecified ↔ config.advertiseIp = some .unspecified ∨
      config.advertiseIp = none ∧ events.findSome? reported? = some .unspecified) ∧
    (preferredIp config events = .unspecified ↔ config.advertiseIp = some .unspecified) ∧
    ∀ later, (∀ e ∈ later, e.Repeats config events) →
      ((new config).run (events ++ later)).returnIp = n.returnIp := by
  intro n
  refine ⟨⟨fun heq => ?_, returnIp_eq_preferredIp⟩, ⟨fun heq => ?_, ?_⟩,
    preferredIp_eq_unspecified_iff, fun later => returnIp_append_of_repeats⟩
  · refine Decidable.byContradiction fun hno => ?_
    rw [not_or, Decidable.not_not, Decidable.not_not] at hno
    exact preferredIp_ne_unspecified hno.1 (heq.symm.trans (returnIp_eq_unspecified hno.1 hno.2))
  · by_cases h : config.advertiseIp ≠ none ∨ events.findSome? reported? ≠ some .unspecified
    · exact .inl (preferredIp_eq_unspecified_iff.1 ((returnIp_eq_preferredIp h).symm.trans heq))
    · rw [not_or, Decidable.not_not, Decidable.not_not] at h
      exact .inr h
  · rintro (hfixed | ⟨hfixed, hfirst⟩)
    · exact (returnIp_eq_preferredIp (.inl (hfixed ▸ Option.some_ne_none _))).trans
        (preferredIp_eq_unspecified_iff.2 hfixed)
    · exact returnIp_eq_unspecified hfixed hfirst

/-- The first report to a node that listens on the host itself names no interface, the second one
does. -/
theorem returnIp_eq_preferredIp_iff_report :
    let config : Config := { Config.standard with listenAddress := ⟨.v4 .loopback, 0⟩ }
    let report (ip : Ipv4) : AddressEvent := .receive .isolated .empty 0 (.addrSelf ⟨ip, 5⟩)
    let events : List AddressEvent := [.bind .isolated, report .unspecified]
    let later : List AddressEvent := [report ⟨10, 0, 0, 9⟩]
    (∀ e ∈ later, e.Repeats config events) ∧
      ((new config).run events).returnIp = .unspecified ∧
      ((new config).run (events ++ later)).returnIp = .unspecified ∧
      preferredIp config events = .loopback ∧
      preferredIp config (events ++ later) = ⟨10, 0, 0, 9⟩ := by
  intro config report events later
  have hrepeats : ∀ e ∈ later, e.Repeats config events := by
    rintro e he
    obtain rfl := List.mem_singleton.1 he
    exact ⟨fun _ => rfl, fun h => (nomatch (show some Ipv4.unspecified = none from h)),
      fun _ => rfl⟩
  obtain ⟨-, hunspecified, -, hlater⟩ := returnIp_eq_preferredIp_iff config events
  have hfirst := hunspecified.2 (.inr ⟨rfl, rfl⟩)
  exact ⟨hrepeats, hfirst, (hlater later hrepeats).trans hfirst, rfl, rfl⟩

end Node

end FileMesh
