/-
# Chunks of a compressed response

Before a response is compressed its bytes are cut into chunks of a configured size. The
stage that does it has one input and one output. Every demand of the output is handed to
the input as long as that is open; every chunk that comes is put into a buffer, and a piece
of the buffer is given to the output. What is left when the input completes is given out
piece by piece.

Pieces of no bytes leave the buffer as it is. `keeps_iff` says that this is the only thing
that can go wrong, and when it does.
-/

import Mathlib.Algebra.Order.Group.Nat
import Otoroshi.Foundation.Json
import Otoroshi.Foundation.Run

namespace Otoroshi

/-! ## Configuration -/

structure GzipConfig where
  enabled : Bool := false
  excludedPatterns : List Str := []
  whiteList : List Str :=
    ["text/*".toList, "application/javascript".toList, "application/json".toList]
  blackList : List Str := []
  bufferSize : Int32 := 8192
  chunkedThreshold : Int32 := 102400
  compressionLevel : Int32 := 5
  deriving DecidableEq

namespace GzipConfig

def reads : Reads GzipConfig := fun json =>
  .ok
    { enabled := (json.select "enabled").asOptOrElse .boolean false
      excludedPatterns := (json.select "excludedPatterns").asOptOrElse (.seq .string) []
      whiteList := (json.select "whiteList").asOptOrElse (.seq .string) []
      blackList := (json.select "blackList").asOptOrElse (.seq .string) []
      bufferSize := (json.select "bufferSize").asOptOrElse .int 8192
      chunkedThreshold := (json.select "chunkedThreshold").asOptOrElse .int 102400
      compressionLevel := (json.select "compressionLevel").asOptOrElse .int 5 }

/-- Every size can be configured. -/
theorem reads_bufferSize (size : Int32) :
    ∃ config, reads (Json.obj [("bufferSize", Json.int size)]) = .ok config ∧
      config.bufferSize = size := by
  have hselect : (Json.obj [("bufferSize", Json.int size)]).select "bufferSize" =
      some (Json.int size) := by
    rw [select_obj_cons, if_pos rfl]
  refine ⟨_, rfl, ?_⟩
  rw [hselect, asOptOrElse_of_ok (reads_int size)]

end GzipConfig

/-! ## The stage -/

namespace Chunker

inductive Status
  | running
  | completed
  /-- a port was used when it could not be -/
  | failed
  deriving DecidableEq

structure Stage where
  buffer : List UInt8 := []
  /-- of the input -/
  isClosed : Bool := false
  /-- of the input -/
  hasBeenPulled : Bool := false
  /-- of the output -/
  isAvailable : Bool := false
  status : Status := .running
  emitted : List (List UInt8) := []
  deriving DecidableEq

inductive Event
  | pull
  | push (elem : List UInt8)
  | upstreamFinish
  deriving DecidableEq

variable (chunkSize : Int32)

namespace Stage

/-- `pull(in)`. -/
def pullIn (stage : Stage) : Option Stage :=
  if stage.isClosed || stage.hasBeenPulled then none
  else some { stage with hasBeenPulled := true }

/-- `push(out, chunk)`. -/
def pushOut (chunk : List UInt8) (stage : Stage) : Option Stage :=
  if stage.isAvailable then
    some { stage with isAvailable := false, emitted := stage.emitted ++ [chunk] }
  else none

def completeStage (stage : Stage) : Stage := { stage with status := .completed }

def emitChunk (stage : Stage) : Option Stage :=
  if stage.buffer = [] then
    if stage.isClosed then some stage.completeStage else stage.pullIn
  else
    -- a negative size splits like zero
    let (chunk, nextBuffer) := stage.buffer.splitAt chunkSize.toInt.toNat
    { stage with buffer := nextBuffer }.pushOut chunk

def onPull (stage : Stage) : Option Stage :=
  if stage.isClosed then stage.emitChunk chunkSize else stage.pullIn

def onPush (elem : List UInt8) (stage : Stage) : Option Stage :=
  { stage with buffer := stage.buffer ++ elem }.emitChunk chunkSize

def onUpstreamFinish (stage : Stage) : Option Stage :=
  if stage.buffer = [] then some stage.completeStage
  else if stage.isAvailable then stage.emitChunk chunkSize
  else some stage

/-- The output asks for a chunk once it has got the one before, the input delivers what it
was asked for, and completes once. -/
def Allows (stage : Stage) : Event → Prop
  | .pull => stage.status = .running ∧ stage.isAvailable = false
  | .push _ => stage.status = .running ∧ stage.isClosed = false ∧ stage.hasBeenPulled = true
  | .upstreamFinish => stage.status = .running ∧ stage.isClosed = false

instance (stage : Stage) (event : Event) : Decidable (stage.Allows event) := by
  cases event <;> exact inferInstanceAs (Decidable (_ ∧ _))

/-- The handler of an event, after the platform has noted it at the port. -/
def handle (stage : Stage) : Event → Option Stage
  | .pull => { stage with isAvailable := true }.onPull chunkSize
  | .push elem => { stage with hasBeenPulled := false }.onPush chunkSize elem
  | .upstreamFinish =>
      { stage with isClosed := true, hasBeenPulled := false }.onUpstreamFinish chunkSize

def run (event : Event) (stage : Stage) : Stage :=
  (stage.handle chunkSize event).getD { stage with status := .failed }

/-- Some number of demands completes the stage. -/
def Completes (stage : Stage) : Prop :=
  ∃ pulls : Nat,
    Along (run chunkSize) (fun stage event _ => stage.Allows event) stage
        (List.replicate pulls .pull) ∧
      (runAll (run chunkSize) stage (List.replicate pulls .pull)).status = .completed

end Stage

def Event.bytes : Event → List UInt8
  | .push elem => elem
  | _ => []

/-- Events in an order that the ports allow. -/
def Allowed (events : List Event) : Prop :=
  Along (Stage.run chunkSize) (fun stage event _ => stage.Allows event) {} events

instance (events : List Event) : Decidable (Allowed chunkSize events) :=
  inferInstanceAs (Decidable (Along _ _ _ _))

/-- The stage after the events. -/
def after (events : List Event) : Stage := runAll (Stage.run chunkSize) {} events

/-- No byte is lost, repeated or moved, all chunks have the right size, and the stage can be
brought to its end. -/
structure Keeps (events : List Event) : Prop where
  works : (after chunkSize events).status ≠ .failed
  sizes : ∀ chunk ∈ (after chunkSize events).emitted,
    chunk ≠ [] ∧ (chunk.length : Int) ≤ chunkSize.toInt
  content : (after chunkSize events).emitted.flatten ++ (after chunkSize events).buffer =
    events.flatMap Event.bytes
  complete : (after chunkSize events).status = .completed →
    (after chunkSize events).emitted.flatten = events.flatMap Event.bytes
  ends : (after chunkSize events).isClosed → (after chunkSize events).Completes chunkSize

/-! ## What an event does -/

namespace Stage

/-- What is known of a stage that has not failed: while the input is open it has been pulled
exactly when the output waits. -/
structure Linked (stage : Stage) : Prop where
  works : stage.status ≠ .failed
  asks : stage.status = .running → stage.isClosed = false →
    stage.hasBeenPulled = stage.isAvailable
  serves : stage.status = .running → stage.isClosed = true →
    stage.isAvailable = false ∧ stage.hasBeenPulled = false
  gives : stage.status = .completed → stage.buffer = []

/-- What an event does to the bytes of the stage. -/
inductive Moves (event : Event) (stage next : Stage) : Prop
  | waits (hbytes : event.bytes = []) (hbuffer : next.buffer = stage.buffer)
      (hemitted : next.emitted = stage.emitted)
  | emits (hcontent : stage.buffer ++ event.bytes ≠ [])
      (hbuffer : next.buffer = (stage.buffer ++ event.bytes).drop chunkSize.toInt.toNat)
      (hemitted : next.emitted =
        stage.emitted ++ [(stage.buffer ++ event.bytes).take chunkSize.toInt.toNat])

variable {chunkSize} {stage next : Stage} {event : Event} {events : List Event}

theorem linked_init : Linked {} where
  works := by decide
  asks _ _ := rfl
  serves _ h := by contradiction
  gives _ := rfl

theorem run_of_handle (h : stage.handle chunkSize event = some next) :
    stage.run chunkSize event = next := by
  rw [run, h, Option.getD_some]

/-- Something is given out, or asked for, or there is nothing left. -/
theorem emitChunk_spec (hrunning : stage.status = .running) (havailable : stage.isAvailable = true)
    (hpulled : stage.hasBeenPulled = false) :
    ∃ next, stage.emitChunk chunkSize = some next ∧ next.Linked ∧
      (stage.buffer = [] ∧ next.buffer = [] ∧ next.emitted = stage.emitted ∨
        stage.buffer ≠ [] ∧ next.buffer = stage.buffer.drop chunkSize.toInt.toNat ∧
          next.emitted = stage.emitted ++ [stage.buffer.take chunkSize.toInt.toNat]) := by
  by_cases hbuffer : stage.buffer = []
  · cases hclosed : stage.isClosed with
    | false =>
        refine ⟨{ stage with hasBeenPulled := true }, ?_, ?_, .inl ⟨hbuffer, hbuffer, rfl⟩⟩
        · simp [emitChunk, pullIn, hbuffer, hclosed, hpulled]
        · refine ⟨?_, fun _ _ => havailable.symm, ?_, fun _ => hbuffer⟩
          · simp [hrunning]
          · simp [hclosed]
    | true =>
        refine ⟨stage.completeStage, ?_, ?_, .inl ⟨hbuffer, hbuffer, rfl⟩⟩
        · rw [emitChunk, if_pos hbuffer, if_pos hclosed]
        · refine ⟨?_, ?_, ?_, fun _ => hbuffer⟩ <;> simp [completeStage]
  · refine ⟨{ stage with
      buffer := stage.buffer.drop chunkSize.toInt.toNat
      isAvailable := false
      emitted := stage.emitted ++ [stage.buffer.take chunkSize.toInt.toNat] }, ?_, ?_,
      .inr ⟨hbuffer, rfl, rfl⟩⟩
    · simp [emitChunk, pushOut, hbuffer, havailable, List.splitAt_eq]
    · exact ⟨by simp [hrunning], fun _ _ => hpulled, fun _ _ => ⟨rfl, hpulled⟩,
        fun h => absurd (hrunning.symm.trans h) (by decide)⟩

theorem moves_of_handle_eq_emitChunk (ready : Stage)
    (hhandle : stage.handle chunkSize event = ready.emitChunk chunkSize)
    (hbuffer : ready.buffer = stage.buffer ++ event.bytes)
    (hemitted : ready.emitted = stage.emitted)
    (hrunning : ready.status = .running) (havailable : ready.isAvailable = true)
    (hpulled : ready.hasBeenPulled = false) :
    (stage.run chunkSize event).Linked ∧
      Moves chunkSize event stage (stage.run chunkSize event) := by
  obtain ⟨next, hnext, hlinked, hcase⟩ :=
    @emitChunk_spec chunkSize ready hrunning havailable hpulled
  rw [run_of_handle (hhandle.trans hnext)]
  refine ⟨hlinked, ?_⟩
  rw [hbuffer, hemitted] at hcase
  obtain ⟨hnil, hbuffer, hemitted⟩ | ⟨hcontent, hbuffer, hemitted⟩ := hcase
  · obtain ⟨hleft, hright⟩ := List.append_eq_nil_iff.mp hnil
    exact .waits hright (hbuffer.trans hleft.symm) hemitted
  · exact .emits hcontent hbuffer hemitted

/-- An event that the ports allow does not make the stage fail. -/
theorem linked_moves_run (h : stage.Linked) (hallows : stage.Allows event) :
    (stage.run chunkSize event).Linked ∧
      Moves chunkSize event stage (stage.run chunkSize event) := by
  cases event with
  | pull =>
      obtain ⟨hrunning, havailable⟩ := hallows
      cases hclosed : stage.isClosed with
      | false =>
          have hpulled := (h.asks hrunning hclosed).trans havailable
          have hhandle : stage.handle chunkSize .pull =
              some { stage with isAvailable := true, hasBeenPulled := true } := by
            simp [handle, onPull, pullIn, hclosed, hpulled]
          rw [run_of_handle hhandle]
          refine ⟨⟨h.works, fun _ _ => rfl, ?_, h.gives⟩, .waits rfl rfl rfl⟩
          simp [hclosed]
      | true =>
          refine moves_of_handle_eq_emitChunk { stage with isAvailable := true } ?_
            (List.append_nil _).symm rfl hrunning rfl (h.serves hrunning hclosed).2
          rw [handle, onPull, if_pos hclosed]
  | push elem =>
      obtain ⟨hrunning, hclosed, hpulled⟩ := hallows
      exact moves_of_handle_eq_emitChunk
        { stage with hasBeenPulled := false, buffer := stage.buffer ++ elem } rfl rfl rfl
        hrunning ((h.asks hrunning hclosed).symm.trans hpulled) rfl
  | upstreamFinish =>
      obtain ⟨hrunning, hclosed⟩ := hallows
      by_cases hbuffer : stage.buffer = []
      · have hhandle : stage.handle chunkSize .upstreamFinish =
            some { stage with isClosed := true, hasBeenPulled := false, status := .completed } := by
          rw [handle, onUpstreamFinish, if_pos hbuffer, completeStage]
        rw [run_of_handle hhandle]
        refine ⟨⟨?_, ?_, ?_, fun _ => hbuffer⟩, .waits rfl rfl rfl⟩ <;> simp
      · cases havailable : stage.isAvailable with
        | true =>
            refine moves_of_handle_eq_emitChunk
              { stage with isClosed := true, hasBeenPulled := false } ?_
              (List.append_nil _).symm rfl hrunning havailable rfl
            rw [handle, onUpstreamFinish, if_neg hbuffer, if_pos havailable]
        | false =>
            have hhandle : stage.handle chunkSize .upstreamFinish =
                some { stage with isClosed := true, hasBeenPulled := false } := by
              simp [handle, onUpstreamFinish, hbuffer, havailable]
            rw [run_of_handle hhandle]
            refine ⟨⟨h.works, ?_, fun _ _ => ⟨havailable, rfl⟩, h.gives⟩, .waits rfl rfl rfl⟩
            simp

/-! ## Runs -/

theorem content_run (h : Moves chunkSize event stage next) :
    next.emitted.flatten ++ next.buffer = stage.emitted.flatten ++ stage.buffer ++ event.bytes := by
  cases h with
  | waits hbytes hbuffer hemitted => rw [hbuffer, hemitted, hbytes, List.append_nil]
  | emits _ hbuffer hemitted =>
      rw [hbuffer, hemitted, List.flatten_append, List.flatten_singleton, List.append_assoc,
        List.take_append_drop, List.append_assoc]

theorem linked_runAll (h : stage.Linked)
    (hallowed : Along (run chunkSize) (fun stage event _ => stage.Allows event) stage events) :
    (runAll (run chunkSize) stage events).Linked :=
  runAll_invariant (fun _ _ _ hlinked hallows => (linked_moves_run hlinked hallows).1) hallowed h

theorem content_runAll (h : stage.Linked)
    (hallowed : Along (run chunkSize) (fun stage event _ => stage.Allows event) stage events) :
    (runAll (run chunkSize) stage events).emitted.flatten ++
        (runAll (run chunkSize) stage events).buffer =
      stage.emitted.flatten ++ stage.buffer ++ events.flatMap Event.bytes := by
  induction events generalizing stage with
  | nil => exact (List.append_nil _).symm
  | cons event rest ih =>
      obtain ⟨hlinked, hmoves⟩ := @linked_moves_run chunkSize _ _ h hallowed.1
      rw [List.flatMap_cons, ← List.append_assoc, ← content_run hmoves]
      exact ih hlinked hallowed.2

/-- The chunks that were given out have a size that was asked for. -/
def Sized (chunkSize : Int32) (stage : Stage) : Prop :=
  ∀ chunk ∈ stage.emitted, chunk ≠ [] ∧ (chunk.length : Int) ≤ chunkSize.toInt

theorem sized_run (hsize : 0 < chunkSize.toInt) (h : stage.Sized chunkSize)
    (hmoves : Moves chunkSize event stage next) : next.Sized chunkSize := by
  cases hmoves with
  | waits _ _ hemitted =>
      rw [Sized, hemitted]
      exact h
  | emits hcontent _ hemitted =>
      intro chunk hchunk
      rw [hemitted, List.mem_append, List.mem_singleton] at hchunk
      obtain hchunk | rfl := hchunk
      · exact h chunk hchunk
      · refine ⟨?_, ?_⟩
        · rw [ne_eq, List.take_eq_nil_iff, not_or]
          exact ⟨by omega, hcontent⟩
        · have := List.length_take_le chunkSize.toInt.toNat (stage.buffer ++ event.bytes)
          omega

/-- The stage has had no byte yet. -/
def Untouched (stage : Stage) : Prop := stage.buffer = [] ∧ stage.emitted = []

theorem untouched_run (hbytes : event.bytes = []) (h : stage.Untouched)
    (hmoves : Moves chunkSize event stage next) : next.Untouched := by
  cases hmoves with
  | waits _ hbuffer hemitted => exact ⟨hbuffer.trans h.1, hemitted.trans h.2⟩
  | emits hcontent => exact absurd (by rw [h.1, hbytes, List.nil_append]) hcontent

theorem mem_emitted_run {chunk : List UInt8} (h : chunk ∈ stage.emitted)
    (hmoves : Moves chunkSize event stage next) : chunk ∈ next.emitted := by
  cases hmoves with
  | waits _ _ hemitted => rwa [hemitted]
  | emits _ _ hemitted =>
      rw [hemitted]
      exact List.mem_append_left _ h

/-- Pieces of a size that is not positive are empty, and the first bytes that come lead to one. -/
theorem nil_mem_emitted_run (hsize : chunkSize.toInt ≤ 0) (hbytes : event.bytes ≠ [])
    (hmoves : Moves chunkSize event stage next) : [] ∈ next.emitted := by
  cases hmoves with
  | waits hnil => exact absurd hnil hbytes
  | emits _ _ hemitted =>
      rw [hemitted, Int.toNat_of_nonpos hsize, List.take_zero]
      exact List.mem_append_right _ (List.mem_singleton_self [])

theorem bytes_eq_nil_of_nil_notMem (hsize : chunkSize.toInt ≤ 0) (h : stage.Linked)
    (hallowed : Along (run chunkSize) (fun stage event _ => stage.Allows event) stage events)
    (hnil : [] ∉ (runAll (run chunkSize) stage events).emitted) :
    [] ∉ stage.emitted ∧ ∀ event ∈ events, event.bytes = [] := by
  induction events generalizing stage with
  | nil => exact ⟨hnil, fun event hevent => absurd hevent List.not_mem_nil⟩
  | cons event rest ih =>
      obtain ⟨hlinked, hmoves⟩ := @linked_moves_run chunkSize _ _ h hallowed.1
      obtain ⟨hnext, hrest⟩ := ih hlinked hallowed.2 hnil
      refine ⟨fun hmem => hnext (mem_emitted_run hmem hmoves), ?_⟩
      rw [List.forall_mem_cons]
      refine ⟨?_, hrest⟩
      by_contra hbytes
      exact hnext (nil_mem_emitted_run hsize hbytes hmoves)

/-! ## The end -/

theorem completes_of_completed (h : stage.status = .completed) : stage.Completes chunkSize :=
  ⟨0, trivial, h⟩

theorem completes_of_pull (hallows : stage.Allows .pull)
    (h : (stage.run chunkSize .pull).Completes chunkSize) : stage.Completes chunkSize := by
  obtain ⟨pulls, hallowed, hcompleted⟩ := h
  exact ⟨pulls + 1, ⟨hallows, hallowed⟩, hcompleted⟩

theorem run_pull_of_nil (hclosed : stage.isClosed = true) (hbuffer : stage.buffer = []) :
    (stage.run chunkSize .pull).status = .completed := by
  simp [run, handle, onPull, emitChunk, completeStage, hclosed, hbuffer]

theorem run_pull_of_ne_nil (hclosed : stage.isClosed = true) (hbuffer : stage.buffer ≠ []) :
    stage.run chunkSize .pull =
      { stage with
        buffer := stage.buffer.drop chunkSize.toInt.toNat
        isAvailable := false
        emitted := stage.emitted ++ [stage.buffer.take chunkSize.toInt.toNat] } := by
  simp [run, handle, onPull, emitChunk, pushOut, hclosed, hbuffer, List.splitAt_eq]

/-- Every demand makes what is left shorter. -/
theorem completes_of_pos (hsize : 0 < chunkSize.toInt) (hclosed : stage.isClosed = true)
    (hrunning : stage.status = .running) (havailable : stage.isAvailable = false) :
    stage.Completes chunkSize := by
  induction hlength : stage.buffer.length using Nat.strong_induction_on generalizing stage with
  | _ length ih =>
      apply completes_of_pull ⟨hrunning, havailable⟩
      by_cases hbuffer : stage.buffer = []
      · exact completes_of_completed (run_pull_of_nil hclosed hbuffer)
      · rw [run_pull_of_ne_nil hclosed hbuffer]
        have hshorter : (stage.buffer.drop chunkSize.toInt.toNat).length < length := by
          have := List.length_pos_of_ne_nil hbuffer
          rw [List.length_drop]
          omega
        exact ih _ hshorter hclosed hrunning rfl rfl

/-- A stage that has had no byte ends at once. -/
theorem completes_of_nil (h : stage.Linked) (hclosed : stage.isClosed = true)
    (hbuffer : stage.buffer = []) : stage.Completes chunkSize := by
  cases hstatus : stage.status with
  | running =>
      exact completes_of_pull ⟨hstatus, (h.serves hstatus hclosed).1⟩
        (completes_of_completed (run_pull_of_nil hclosed hbuffer))
  | completed => exact completes_of_completed hstatus
  | failed => exact absurd hstatus h.works

theorem completes_of_closed (hsize : 0 < chunkSize.toInt) (h : stage.Linked)
    (hclosed : stage.isClosed = true) : stage.Completes chunkSize := by
  cases hstatus : stage.status with
  | running => exact completes_of_pos hsize hclosed hstatus (h.serves hstatus hclosed).1
  | completed => exact completes_of_completed hstatus
  | failed => exact absurd hstatus h.works

end Stage

variable {chunkSize} {events : List Event}

theorem linked_after (hallowed : Allowed chunkSize events) : (after chunkSize events).Linked :=
  Stage.linked_runAll Stage.linked_init hallowed

/-- What does not depend on the size. -/
theorem keeps_of_sized_of_completes (hallowed : Allowed chunkSize events)
    (hsized : (after chunkSize events).Sized chunkSize)
    (hends : (after chunkSize events).isClosed → (after chunkSize events).Completes chunkSize) :
    Keeps chunkSize events := by
  have hcontent : (after chunkSize events).emitted.flatten ++ (after chunkSize events).buffer =
      events.flatMap Event.bytes :=
    Stage.content_runAll Stage.linked_init hallowed
  refine ⟨(linked_after hallowed).works, hsized, hcontent, ?_, hends⟩
  intro hcompleted
  rwa [(linked_after hallowed).gives hcompleted, List.append_nil] at hcontent

theorem keeps_of_pos (hsize : 0 < chunkSize.toInt) (hallowed : Allowed chunkSize events) :
    Keeps chunkSize events := by
  have hinv : (after chunkSize events).Linked ∧ (after chunkSize events).Sized chunkSize := by
    refine @runAll_invariant _ _ _ _ _ _ (fun stage => stage.Linked ∧ stage.Sized chunkSize) ?_
      hallowed ⟨Stage.linked_init, fun chunk hchunk => absurd hchunk List.not_mem_nil⟩
    intro stage event _ hstage hallows
    obtain ⟨hnext, hmoves⟩ := Stage.linked_moves_run hstage.1 hallows
    exact ⟨hnext, Stage.sized_run hsize hstage.2 hmoves⟩
  exact keeps_of_sized_of_completes hallowed hinv.2 (Stage.completes_of_closed hsize hinv.1)

/-- As long as no byte comes, the size does not matter. -/
theorem keeps_of_empty (hempty : ∀ event ∈ events, event.bytes = [])
    (hallowed : Allowed chunkSize events) : Keeps chunkSize events := by
  have hinv : (after chunkSize events).Linked ∧ (after chunkSize events).Untouched := by
    refine @runAll_invariant _ _ _ _ _ _ (fun stage => stage.Linked ∧ stage.Untouched) ?_
      (along_and hallowed (along_of_forall hempty)) ⟨Stage.linked_init, rfl, rfl⟩
    intro stage event _ hstage hevent
    obtain ⟨hnext, hmoves⟩ := Stage.linked_moves_run hstage.1 hevent.1
    exact ⟨hnext, Stage.untouched_run hevent.2 hstage.2 hmoves⟩
  apply keeps_of_sized_of_completes hallowed
  · rw [Stage.Sized, hinv.2.2]
    exact fun chunk hchunk => absurd hchunk List.not_mem_nil
  · exact fun hclosed => Stage.completes_of_nil hinv.1 hclosed hinv.2.1

/-- Exactly the sizes from one on are good for all that may come. -/
theorem keeps_iff {json : JsValue} {config : GzipConfig}
    (_ : GzipConfig.reads json = .ok config) (hallowed : Allowed config.bufferSize events) :
    Keeps config.bufferSize events ↔
      1 ≤ config.bufferSize ∨ ∀ event ∈ events, event.bytes = [] := by
  have hone : 1 ≤ config.bufferSize ↔ 0 < config.bufferSize.toInt := Int32.le_iff_toInt_le
  rw [hone]
  refine ⟨fun h => ?_, ?_⟩
  · rw [or_iff_not_imp_left, not_lt]
    intro hsize
    exact (Stage.bytes_eq_nil_of_nil_notMem hsize Stage.linked_init hallowed
      fun hmem => (h.sizes [] hmem).1 rfl).2
  · intro h
    cases h with
    | inl hsize => exact keeps_of_pos hsize hallowed
    | inr hempty => exact keeps_of_empty hempty hallowed

/-- An empty chunk, and one that is given out in two pieces, the second after the input has
completed. -/
theorem keeps_of_two :
    ∃ config, GzipConfig.reads (Json.obj [("bufferSize", Json.int 2)]) = .ok config ∧
      Keeps config.bufferSize
        [.pull, .push [], .push [1, 2, 3], .upstreamFinish, .pull, .pull] := by
  obtain ⟨config, hread, hsize⟩ := GzipConfig.reads_bufferSize 2
  refine ⟨config, hread, (keeps_iff hread ?_).mpr (.inl ?_)⟩ <;> rw [hsize] <;> decide

/-- A size of zero gives out an empty chunk, and keeps the bytes. -/
theorem not_keeps_of_zero :
    ∃ config, GzipConfig.reads (Json.obj [("bufferSize", Json.int 0)]) = .ok config ∧
      Allowed config.bufferSize [.pull, .push [1]] ∧
      ¬ Keeps config.bufferSize [.pull, .push [1]] := by
  obtain ⟨config, hread, hsize⟩ := GzipConfig.reads_bufferSize 0
  refine ⟨config, hread, ?_, ?_⟩ <;> rw [hsize]
  · decide
  · exact fun h => (h.sizes [] (by decide)).1 rfl

end Chunker

end Otoroshi
