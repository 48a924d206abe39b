/-
# Messages that pass from node to node

A worker sends its messages to another node as JSON. The node may be a worker itself: it then
counts what it reads as if it were its own, and sends it on with its next messages. There are two
ways in, a request and a web socket.

`survives_relays_iff` says which messages are read as they were written, and which of them arrive at
the second node with their kind and their totals.
-/

import Otoroshi.Cluster.QuotaWire

namespace Otoroshi

namespace Cluster

open Totals

variable {D : Type}

/-- What the platform makes of numbers: the decimal of a double, which it refuses to give for
one that is not finite, the double that is nearest to a decimal, and the decimal that a text
stands for. The decimal of a double is one that no other double is nearer to. The two zeros are
one double here, as they are for `==`. -/
structure Decimals (D : Type) where
  ofDouble : D → Option Rat
  toDouble : Rat → D
  ofText : Str → Option Rat
  toDouble_of_ofDouble : ∀ double decimal, ofDouble double = some decimal →
    toDouble decimal = double

namespace Decimals

/-- `Reads[Double]` -/
def double (decimals : Decimals D) : Reads D
  | .number value => .ok (decimals.toDouble value)
  | _ => .error .jsResult

/-- `Reads[BigDecimal]` -/
def bigDecimal (decimals : Decimals D) : Reads Rat
  | .number value => .ok value
  | .string text => ((decimals.ofText text).map .ok).getD (.error .jsResult)
  | _ => .error .jsResult

end Decimals

/-- The status of a worker. -/
structure GlobalStatusUpdate (D : Type) where
  cpuUsage : D
  loadAverage : D
  heapUsed : Long
  heapSize : Long
  liveThreads : Long
  livePeakThreads : Long
  daemonThreads : Long
  counters : List (Str × JsValue)
  rate : Rat
  duration : Rat
  overhead : Rat
  dataInRate : Rat
  dataOutRate : Rat
  concurrentHandledRequests : Long

namespace GlobalStatusUpdate

/-- No reader of a field throws. -/
def reads (decimals : Decimals D) (json : JsValue) : GlobalStatusUpdate D where
  cpuUsage := (json.select "cpu_usage").asOptOrElse decimals.double (decimals.toDouble 0)
  loadAverage := (json.select "load_average").asOptOrElse decimals.double (decimals.toDouble 0)
  heapUsed := (json.select "heap_used").asOptOrElse .long ⟨0, isLong_zero⟩
  heapSize := (json.select "heap_size").asOptOrElse .long ⟨0, isLong_zero⟩
  liveThreads := (json.select "live_threads").asOptOrElse .long ⟨0, isLong_zero⟩
  livePeakThreads := (json.select "live_peak_threads").asOptOrElse .long ⟨0, isLong_zero⟩
  daemonThreads := (json.select "daemon_threads").asOptOrElse .long ⟨0, isLong_zero⟩
  counters := (json.select "counters").asOptOrElse .jsObject []
  rate := (json.select "rate").asOptOrElse decimals.bigDecimal 0
  duration := (json.select "duration").asOptOrElse decimals.bigDecimal 0
  overhead := (json.select "overhead").asOptOrElse decimals.bigDecimal 0
  dataInRate := (json.select "dataInRate").asOptOrElse decimals.bigDecimal 0
  dataOutRate := (json.select "dataOutRate").asOptOrElse decimals.bigDecimal 0
  concurrentHandledRequests :=
    (json.select "concurrentHandledRequests").asOptOrElse .long ⟨0, isLong_zero⟩

/-- Nothing is written if a double has no decimal. -/
def writes (decimals : Decimals D) (o : GlobalStatusUpdate D) : Option JsValue := do
  let cpuUsage ← decimals.ofDouble o.cpuUsage
  let loadAverage ← decimals.ofDouble o.loadAverage
  pure (Json.obj [
    ("typ", .string "globstats".toList),
    ("cpu_usage", .number cpuUsage),
    ("load_average", .number loadAverage),
    ("heap_used", Json.long o.heapUsed),
    ("heap_size", Json.long o.heapSize),
    ("live_threads", Json.long o.liveThreads),
    ("live_peak_threads", Json.long o.livePeakThreads),
    ("daemon_threads", Json.long o.daemonThreads),
    ("counters", .object o.counters),
    ("rate", .number o.rate),
    ("duration", .number o.duration),
    ("overhead", .number o.overhead),
    ("dataInRate", .number o.dataInRate),
    ("dataOutRate", .number o.dataOutRate),
    ("concurrentHandledRequests", Json.long o.concurrentHandledRequests)])

end GlobalStatusUpdate

/-- A message of any kind, with all that it says. -/
inductive Message (D : Type) where
  | status (update : GlobalStatusUpdate D)
  | incr (message : ClusterLeaderUpdateMessage) (hcounted : message.counted.isSome)

namespace Message

def ofIncr (message : ClusterLeaderUpdateMessage) : Option (Message D) :=
  if hcounted : message.counted.isSome then some (.incr message hcounted) else none

def json (decimals : Decimals D) : Message D → Option JsValue
  | .status update => update.writes decimals
  | .incr message _ => some message.json

def read (decimals : Decimals D) (item : JsValue) : JsResult (Option (Message D)) :=
  if (item.select "typ").asOpt .string = some "globstats".toList then
    pure (some (.status (GlobalStatusUpdate.reads decimals item)))
  else do
    let message ← ClusterLeaderUpdateMessage.read item
    pure (message.bind ofIncr)

end Message

/-! ## Relays -/

namespace ClusterLeaderUpdateMessage

/-- The call that counts a message once more. -/
def call : ClusterLeaderUpdateMessage → Option Call
  | globalStatusUpdate => none
  | apikeyCallIncr clientId calls => some (.api clientId calls)
  | routeCallIncr routeId counts => some (.service routeId counts)
  | customThrottlingIncr expr group calls ttl => some (.customThrottling expr group calls ttl)
  | customQuotasIncr expr group calls => some (.customQuota expr group calls)

/-- A status goes no further. -/
def updateWorker (message : ClusterLeaderUpdateMessage) (quotaIncrs : QuotaIncrs) :
    QuotaIncrs × Bool :=
  match message.call with
  | none => (quotaIncrs, true)
  | some call => call.run quotaIncrs

end ClusterLeaderUpdateMessage

namespace Message

def updateWorker : Message D → QuotaIncrs → QuotaIncrs × Bool
  | .status _, quotaIncrs => (quotaIncrs, true)
  | .incr message _, quotaIncrs => message.updateWorker quotaIncrs

end Message

/-- The way a message comes in. -/
inductive Arrival where
  | request
  | webSocket
  deriving DecidableEq

/-- The web socket knows three kinds of messages only. -/
def Arrival.knows : Arrival → Message D → Bool
  | .request, _ => true
  | .webSocket, .status _ => true
  | .webSocket, .incr (.apikeyCallIncr _ _) _ => true
  | .webSocket, .incr (.routeCallIncr _ _) _ => true
  | .webSocket, .incr _ _ => false

/-- A worker that receives a message: what waits then, and whether it did not throw. -/
def receive (decimals : Decimals D) (arrival : Arrival) (item : JsValue)
    (quotaIncrs : QuotaIncrs) : QuotaIncrs × Bool :=
  match Message.read decimals item with
  | .error _ => (quotaIncrs, false)
  | .ok none => (quotaIncrs, true)
  | .ok (some message) =>
      if arrival.knows message then message.updateWorker quotaIncrs else (quotaIncrs, true)

/-! ## What waits on a worker -/

/-- Increments wait under the key of what they count. A status may wait under any key. -/
structure Pending where
  quotaIncrs : QuotaIncrs
  placed : ∀ key message counted, quotaIncrs.lookup key = some message →
    message.counted = some counted → key = counted.key

namespace Pending

variable {pending : Pending} {call : Call}

def empty : Pending where
  quotaIncrs := ∅
  placed key message counted hmessage _ := by
    rw [AList.lookup_empty] at hmessage
    cases hmessage

theorem placed_of_extends {counteds : List Counted} {after : QuotaIncrs}
    (h : Extends counteds pending.quotaIncrs after) (key : Str)
    (message : ClusterLeaderUpdateMessage) (counted : Counted)
    (hmessage : after.lookup key = some message) (hcounted : message.counted = some counted) :
    key = counted.key := by
  rcases h.added key message hmessage with ⟨old, hold, hsame⟩ | ⟨other, -, hkey, hown⟩
  · exact pending.placed key old counted hold (hsame.symm.trans hcounted)
  · rw [hkey, Option.some.inj (hown.symm.trans hcounted)]

/-- A call keeps increments where they are. -/
def run (call : Call) (pending : Pending) : Pending where
  quotaIncrs := (call.run pending.quotaIncrs).1
  placed := placed_of_extends (extends_run call)

/-- `handleOfferFailure`: what could not be sent waits again, unless something else waits. -/
def putBack (key : Str) (message : ClusterLeaderUpdateMessage)
    (hplaced : ∀ counted, message.counted = some counted → key = counted.key)
    (pending : Pending) : Pending where
  quotaIncrs := putQuotaIfAbsent key message pending.quotaIncrs
  placed other found counted hfound hcounted := by
    rw [lookup_putQuotaIfAbsent] at hfound
    split at hfound
    · next hother =>
      rw [hother]
      cases hold : pending.quotaIncrs.lookup key with
      | none =>
        rw [hold, Option.getD_none] at hfound
        exact hplaced counted (Option.some.inj hfound ▸ hcounted)
      | some old =>
        rw [hold, Option.getD_some] at hfound
        exact pending.placed key old counted hold (Option.some.inj hfound ▸ hcounted)
    · exact pending.placed other found counted hfound hcounted

/-- What a worker receives leaves increments where they are. -/
def receive (decimals : Decimals D) (arrival : Arrival) (item : JsValue) (pending : Pending) :
    Pending where
  quotaIncrs := (Cluster.receive decimals arrival item pending.quotaIncrs).1
  placed := by
    rw [Cluster.receive]
    split
    · exact pending.placed
    · exact pending.placed
    · next message _ =>
      split
      · cases message with
        | status update => exact pending.placed
        | incr message hcounted =>
          rw [Message.updateWorker, ClusterLeaderUpdateMessage.updateWorker]
          split
          · exact pending.placed
          · next call _ => exact placed_of_extends (extends_run call)
      · exact pending.placed

end Pending

/-! ## On the wire -/

section Wire

variable {decimals : Decimals D} {message : Message D} {item : JsValue}

theorem reads_double {double : D} {decimal : Rat} (h : decimals.ofDouble double = some decimal) :
    decimals.double (.number decimal) = .ok double :=
  congrArg _ (decimals.toDouble_of_ofDouble double decimal h)

theorem reads_bigDecimal (value : Rat) : decimals.bigDecimal (.number value) = .ok value := rfl

theorem reads_jsObject (fields : List (Str × JsValue)) :
    Reads.jsObject (.object fields) = .ok fields := rfl

/-- The status of a worker is read as it was written. -/
theorem reads_writes {update : GlobalStatusUpdate D} (h : update.writes decimals = some item) :
    GlobalStatusUpdate.reads decimals item = update := by
  rw [GlobalStatusUpdate.writes] at h
  obtain ⟨cpuUsage, hcpu, h⟩ := Option.bind_eq_some_iff.mp h
  obtain ⟨loadAverage, hload, h⟩ := Option.bind_eq_some_iff.mp h
  rw [← Option.some.inj h, GlobalStatusUpdate.reads]
  simp [asOptOrElse_of_ok, reads_double hcpu, reads_double hload, reads_long,
    reads_bigDecimal, reads_jsObject]

theorem typ_of_writes {update : GlobalStatusUpdate D} (h : update.writes decimals = some item) :
    (item.select "typ").asOpt .string = some "globstats".toList := by
  rw [GlobalStatusUpdate.writes] at h
  obtain ⟨cpuUsage, -, h⟩ := Option.bind_eq_some_iff.mp h
  obtain ⟨loadAverage, -, h⟩ := Option.bind_eq_some_iff.mp h
  rw [← Option.some.inj h]
  simp [asOpt_string]

theorem typ_json {message : ClusterLeaderUpdateMessage} (h : message.counted.isSome) :
    (message.json.select "typ").asOpt .string ≠ some "globstats".toList := by
  cases message with
  | globalStatusUpdate => cases h
  | _ => simp [ClusterLeaderUpdateMessage.json, asOpt_string]

/-- What is written is read as it was. -/
theorem read_of_json (h : message.json decimals = some item) :
    Message.read decimals item = .ok (some message) := by
  cases message with
  | status update =>
    rw [Message.read, if_pos (typ_of_writes h), reads_writes h]
    rfl
  | incr message hcounted =>
    cases h
    rw [Message.read, if_neg (typ_json hcounted), ClusterLeaderUpdateMessage.read_json]
    simp [Message.ofIncr, hcounted]

/-- The doubles of a status are finite. -/
def Message.Finite (decimals : Decimals D) : Message D → Prop
  | .status update =>
      (decimals.ofDouble update.cpuUsage).isSome ∧ (decimals.ofDouble update.loadAverage).isSome
  | .incr _ _ => True

theorem isSome_json_iff : (message.json decimals).isSome ↔ message.Finite decimals := by
  cases message with
  | status update =>
    rw [Message.json, GlobalStatusUpdate.writes, Message.Finite]
    cases decimals.ofDouble update.cpuUsage <;> cases decimals.ofDouble update.loadAverage <;>
      simp
  | incr message hcounted => exact iff_of_true rfl trivial

end Wire

/-! ## Totals -/

/-- What a message adds. -/
def Message.weight : Message D → Counted → Counts
  | .status _ => 0
  | .incr message _ => message.weight

/-- A message waits, of this kind and for the same. -/
def Waits (quotaIncrs : QuotaIncrs) (message : ClusterLeaderUpdateMessage) : Prop :=
  ∃ counted waiting, message.counted = some counted ∧
    quotaIncrs.lookup counted.key = some waiting ∧ waiting.counted = some counted

/-- How many status messages wait. -/
def statuses (quotaIncrs : QuotaIncrs) : ℕ :=
  quotaIncrs.entries.countP fun entry => entry.2.counted.isNone

/-- After a message came in there is one of its kind to send on, and everything that is to be
sent on has grown by what the message adds. -/
structure Preserves (message : Message D) (before : QuotaIncrs) (after : QuotaIncrs × Bool) :
    Prop where
  accepted : after.2 = true
  total : total ClusterLeaderUpdateMessage.weight after.1 =
    total ClusterLeaderUpdateMessage.weight before + message.weight
  waits : match message with
    | .status _ => statuses after.1 = statuses before + 1
    | .incr message _ => Waits after.1 message

section Totals

variable {pending : Pending} {message : ClusterLeaderUpdateMessage} {counted : Counted}
  {call : Call} {quotaIncrs : QuotaIncrs} {counts : Counts} {id : Str}

/-- An increment for a route throws unless a message for the route waits, or none at all. -/
theorem fits_of_add_route (h : (add (.route id) counts 0 pending.quotaIncrs).2 = true) :
    Fits pending.quotaIncrs (.route id) := by
  intro waiting hwaiting
  have hlookup := @lookup_putQuotaIfAbsent pending.quotaIncrs
    (ClusterLeaderUpdateMessage.fresh 0 (.route id)) (Counted.route id).key (Counted.route id).key
  rw [if_pos rfl, hwaiting, Option.getD_some] at hlookup
  rw [add, addAt] at h
  simp only [hlookup] at h
  cases waiting with
  | routeCallIncr other before =>
    have hkey := pending.placed _ _ _ hwaiting rfl
    rw [key_route_injective hkey]
    rfl
  | _ =>
    simp only [ClusterLeaderUpdateMessage.increment] at h
    cases h

/-- What waits under the key of a message, if there is anything, counts the same. -/
def ClusterLeaderUpdateMessage.FitsIn (quotaIncrs : QuotaIncrs)
    (message : ClusterLeaderUpdateMessage) : Prop :=
  ∀ counted, message.counted = some counted → Fits quotaIncrs counted

theorem fits_of_waits (hwaits : Waits (call.run quotaIncrs).1 message) :
    message.FitsIn quotaIncrs := by
  intro counted hcounted old hold
  obtain ⟨other, waiting, hother, hwaiting, hsame⟩ := hwaits
  cases hcounted.symm.trans hother
  obtain ⟨later, hlater, hkept⟩ := (extends_run call).kept counted.key old hold
  rw [← hkept, Option.some.inj (hlater.symm.trans hwaiting), hsame]

theorem waits_of_fitsAt {ttl : BitVec 64} (hcounted : message.counted = some counted)
    (hfits : Fits quotaIncrs counted) : Waits (add counted counts ttl quotaIncrs).1 message := by
  obtain ⟨-, -, waiting, hwaiting, hlookup⟩ := @addAt_of_fitsAt _ counts ttl _ _ hfits
  refine ⟨counted, waiting, hcounted, ?_, hwaiting⟩
  rw [add, hlookup, if_pos rfl]

theorem run_service_ok (h : ((Call.service id counts).run quotaIncrs).2 = true) :
    (add (.route globalRoute) counts 0 quotaIncrs).2 = true := by
  rw [Call.run, incrementService] at h
  split at h
  · next heq => rw [heq]
  · cases h

/-- Whatever a call counts fits after a success, but for the message itself. -/
theorem fits_of_run_ok (hcall : message.call = some call)
    (hok : (call.run pending.quotaIncrs).2 = true) (hfits : message.FitsIn pending.quotaIncrs) :
    ∀ counted ∈ call.counted, Fits pending.quotaIncrs counted := by
  intro counted hmem
  cases message with
  | globalStatusUpdate => cases hcall
  | routeCallIncr routeId counts =>
    cases hcall
    rcases List.mem_cons.mp hmem with hglobal | hid
    · rw [hglobal]
      exact fits_of_add_route (run_service_ok hok)
    · exact hfits counted (congrArg some (List.mem_singleton.mp hid).symm)
  | _ =>
    cases hcall
    exact hfits counted (congrArg some (List.mem_singleton.mp hmem).symm)

theorem waits_run (hcall : message.call = some call)
    (hfits : ∀ counted ∈ call.counted, Fits quotaIncrs counted) :
    Waits (call.run quotaIncrs).1 message := by
  cases message with
  | globalStatusUpdate => cases hcall
  | routeCallIncr routeId counts =>
    cases hcall
    have hglobal := hfits (.route globalRoute) List.mem_cons_self
    have hid := hfits (.route routeId) (List.mem_cons_of_mem _ (List.mem_singleton_self _))
    have hok := (@addAt_of_fitsAt _ counts 0 _ _ hglobal).1
    have hnext := @fits_service counts _ _ hglobal hid
    rw [← add] at hok
    rw [Call.run, incrementService]
    cases hfirst : add (.route globalRoute) counts 0 quotaIncrs with
    | mk middle ok =>
      rw [hfirst] at hok hnext
      cases hok
      exact waits_of_fitsAt rfl hnext
  | _ =>
    cases hcall
    exact waits_of_fitsAt rfl (hfits _ (List.mem_singleton_self _))

/-- What a call has counted is what the message adds, when all fits. -/
theorem preserves_run_iff {hcounted : message.counted.isSome} (hcall : message.call = some call) :
    Preserves (.incr message hcounted : Message D) pending.quotaIncrs
        (call.run pending.quotaIncrs) ↔
      (∀ counted ∈ call.counted, Fits pending.quotaIncrs counted) ∧
        call.weight = message.weight := by
  constructor
  · intro h
    have hfits := fits_of_run_ok hcall h.accepted (fits_of_waits h.waits)
    have htotal := (run_of_fits hfits).2.symm.trans h.total
    exact ⟨hfits, add_left_cancel htotal⟩
  · rintro ⟨hfits, hweight⟩
    obtain ⟨hok, htotal⟩ := run_of_fits hfits
    rw [hweight] at htotal
    exact ⟨hok, htotal, waits_run hcall hfits⟩

/-- Calls of a route are counted for all routes too, and they would be again. -/
def ClusterLeaderUpdateMessage.CountsOnce (quotaIncrs : QuotaIncrs) :
    ClusterLeaderUpdateMessage → Prop
  | routeCallIncr _ counts => counts = 0 ∧ Fits quotaIncrs (.route globalRoute)
  | _ => True

theorem preserves_updateWorker_iff (hcounted : message.counted.isSome) :
    Preserves (.incr message hcounted : Message D) pending.quotaIncrs
        (message.updateWorker pending.quotaIncrs) ↔
      message.FitsIn pending.quotaIncrs ∧ message.CountsOnce pending.quotaIncrs := by
  have hsingle : ∀ counted call, message.counted = some counted → message.call = some call →
      call.counted = [counted] → call.weight = message.weight →
      (Preserves (.incr message hcounted : Message D) pending.quotaIncrs
        (message.updateWorker pending.quotaIncrs) ↔ message.FitsIn pending.quotaIncrs) := by
    intro counted call hown hcall hlist hweight
    rw [ClusterLeaderUpdateMessage.updateWorker]
    simp only [hcall]
    rw [preserves_run_iff hcall, hlist, ClusterLeaderUpdateMessage.FitsIn, hown]
    simp [hweight]
  cases message with
  | globalStatusUpdate => cases hcounted
  | routeCallIncr routeId counts =>
    have hweight : (Call.service routeId counts).weight =
        (ClusterLeaderUpdateMessage.routeCallIncr routeId counts).weight ↔ counts = 0 := by
      rw [Call.weight, ClusterLeaderUpdateMessage.weight, add_eq_right, Pi.single_eq_zero_iff]
    rw [ClusterLeaderUpdateMessage.updateWorker, ClusterLeaderUpdateMessage.call,
      ClusterLeaderUpdateMessage.FitsIn, ClusterLeaderUpdateMessage.CountsOnce]
    simp only
    rw [preserves_run_iff rfl, hweight]
    simp only [Call.counted, ClusterLeaderUpdateMessage.counted, List.forall_mem_cons,
      List.not_mem_nil, false_implies, implies_true, Option.some.injEq, forall_eq']
    tauto
  | _ => simpa [ClusterLeaderUpdateMessage.CountsOnce] using hsingle _ _ rfl rfl rfl rfl

end Totals

/-! ## All messages -/

/-- What is written is read as the same message. -/
def SurvivesWire (decimals : Decimals D) (message : Message D) : Prop :=
  ∃ item, message.json decimals = some item ∧
    Message.read decimals item = .ok (some message)

/-- A worker that receives what is written sends on the kind and the totals. -/
def SurvivesRelay (decimals : Decimals D) (arrival : Arrival) (pending : Pending)
    (message : Message D) : Prop :=
  ∃ item, message.json decimals = some item ∧
    Preserves message pending.quotaIncrs
      (receive decimals arrival item pending.quotaIncrs)

/-- No status is sent on. Increments are if they fit, and those for a route only if they count
nothing. What the web socket drops is not missed if it counts nothing and waits already. -/
def Message.Passes (arrival : Arrival) (quotaIncrs : QuotaIncrs) : Message D → Prop
  | .status _ => False
  | .incr message hcounted =>
      if arrival.knows (.incr message hcounted : Message D) then
        message.FitsIn quotaIncrs ∧ message.CountsOnce quotaIncrs
      else message.weight = 0 ∧ Waits quotaIncrs message

section Messages

variable {decimals : Decimals D} {message : Message D} {item : JsValue} {arrival : Arrival}
  {pending : Pending}

theorem receive_of_json (h : message.json decimals = some item) (quotaIncrs : QuotaIncrs) :
    receive decimals arrival item quotaIncrs =
      if arrival.knows message then message.updateWorker quotaIncrs else (quotaIncrs, true) := by
  rw [receive, read_of_json h]

theorem not_preserves_of_status {update : GlobalStatusUpdate D} {quotaIncrs : QuotaIncrs} :
    ¬ Preserves (.status update) quotaIncrs (quotaIncrs, true) := by
  intro h
  exact absurd h.waits (Nat.succ_ne_self _).symm

theorem preserves_self_iff {message : ClusterLeaderUpdateMessage}
    {hcounted : message.counted.isSome} {quotaIncrs : QuotaIncrs} :
    Preserves (.incr message hcounted : Message D) quotaIncrs (quotaIncrs, true) ↔
      message.weight = 0 ∧ Waits quotaIncrs message := by
  constructor
  · intro h
    exact ⟨left_eq_add.mp h.total, h.waits⟩
  · rintro ⟨hweight, hwaits⟩
    exact ⟨rfl, left_eq_add.mpr hweight, hwaits⟩

theorem preserves_receive_iff (h : message.json decimals = some item) :
    Preserves message pending.quotaIncrs (receive decimals arrival item pending.quotaIncrs) ↔
      message.Passes arrival pending.quotaIncrs := by
  rw [receive_of_json h]
  cases message with
  | status update =>
    refine iff_of_false ?_ id
    cases arrival <;> exact not_preserves_of_status
  | incr message hcounted =>
    rw [Message.Passes]
    split
    · exact preserves_updateWorker_iff hcounted
    · exact preserves_self_iff

theorem survivesWire_iff : SurvivesWire decimals message ↔ message.Finite decimals := by
  rw [← isSome_json_iff, Option.isSome_iff_exists]
  exact exists_congr fun item => and_iff_left_of_imp read_of_json

theorem survivesRelay_iff :
    SurvivesRelay decimals arrival pending message ↔
      message.Passes arrival pending.quotaIncrs := by
  constructor
  · rintro ⟨item, hitem, h⟩
    exact (preserves_receive_iff hitem).mp h
  · intro h
    cases message with
    | status update => exact h.elim
    | incr message hcounted => exact ⟨message.json, rfl, (preserves_receive_iff rfl).mpr h⟩

end Messages

/-- A message is read as it was written if and only if its doubles are finite, and the second
node sends it on as it came if and only if it passes. -/
theorem survives_relays_iff (decimals : Decimals D) (arrival : Arrival) (pending : Pending)
    (message : Message D) :
    (SurvivesWire decimals message ↔ message.Finite decimals) ∧
      (SurvivesRelay decimals arrival pending message ↔
        message.Passes arrival pending.quotaIncrs) :=
  ⟨survivesWire_iff, survivesRelay_iff⟩

/-- Rational numbers for doubles, and one value that is not a number. -/
def rationals : Decimals (Option Rat) where
  ofDouble := id
  toDouble := some
  ofText _ := none
  toDouble_of_ofDouble _ _ h := h.symm

/-- The load of a processor that is not known. -/
def unknownLoad : GlobalStatusUpdate (Option Rat) :=
  { GlobalStatusUpdate.reads rationals .null with cpuUsage := none }

/-- One call of a route is sent on by a worker as two calls of all routes, a status is not sent
on, the web socket drops a custom quota, and a load that is not a number is not even
written. -/
theorem exists_not_survives :
    ¬ SurvivesRelay rationals .request .empty
        (.incr (.routeCallIncr globalRoute (callsOnly 1)) rfl) ∧
      ¬ SurvivesRelay rationals .request .empty
        (.status (GlobalStatusUpdate.reads rationals .null)) ∧
      ¬ SurvivesRelay rationals .webSocket .empty
        (.incr (.customQuotasIncr "expr".toList "group".toList 1) rfl) ∧
      ¬ SurvivesWire rationals (.status unknownLoad) := by
  refine ⟨?_, ?_, ?_, ?_⟩
  · rw [survivesRelay_iff]
    rintro ⟨-, hcounts, -⟩
    have hcalls := congrFun hcounts .calls
    cases hcalls
  · rw [survivesRelay_iff]
    exact id
  · rw [survivesRelay_iff]
    rintro ⟨hweight, -⟩
    have hcalls := congrFun (congrFun hweight (.customQuotas "expr".toList "group".toList)) .calls
    cases hcalls
  · rw [survivesWire_iff]
    rintro ⟨hcpu, -⟩
    cases hcpu

end Cluster

end Otoroshi
