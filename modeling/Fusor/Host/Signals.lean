import Mathlib.Data.List.Basic

/-!
# Signal state

The signal-delivery thread and the owner task share five atomic cells.  A call
is a sequence of single atomic operations, all sequentially consistent, so a
run is any interleaving of the operations of any number of calls.
-/

namespace Fusor.Host

inductive Signal where
  | interrupt
  | terminate
deriving DecidableEq

/-- The process exit code `128 + n` of a forced exit. -/
def Signal.exitCode : Signal → Int32
  | .interrupt => 130
  | .terminate => 143

/-- The atomic cells of `SignalState`. -/
structure SignalState where
  interrupt : Bool := false
  exitRequested : Bool := false
  exitCode : Int32 := 0
  jsSigintHandler : Bool := false
  pendingSigint : UInt32 := 0
deriving DecidableEq

inductive Call where
  | deliver (signal : Signal)
  | requestExit (code : Int32)
  | setJsSigintHandler (registered : Bool)
  | takePendingSigint
  | consumeInterrupt
  | pendingExitCode
deriving DecidableEq

inductive Result where
  | unit
  | flag (value : Bool)
  | count (value : UInt32)
  | exitCode (value : Option Int32)
deriving DecidableEq

/-- The atomic operation that a call performs next, or what it returned.
`delivering` tells a `request_exit` inside `deliver` from one on its own:
`deliver` returns `true` after it in any case. -/
inductive Point where
  | loadHandler
  | addPending
  | swapInterrupt
  | swapExit (code : Int32) (delivering : Bool)
  | storeExitCode (code : Int32) (delivering : Bool)
  | storeHandler (registered : Bool)
  | swapPending
  | clearInterrupt
  | loadExit
  | loadExitCode
  | returned (result : Result)
deriving DecidableEq

/-- The first operation of a call. -/
def Call.start : Call → Point
  | .deliver .interrupt => .loadHandler
  | .deliver .terminate => .swapExit Signal.terminate.exitCode true
  | .requestExit code => .swapExit code false
  | .setJsSigintHandler registered => .storeHandler registered
  | .takePendingSigint => .swapPending
  | .consumeInterrupt => .clearInterrupt
  | .pendingExitCode => .loadExit

/-- An atomic operation together with the value that it read. -/
inductive Operation where
  | loadHandler (registered : Bool)
  | addPending
  | swapInterrupt (already : Bool)
  | swapExit (code : Int32) (already : Bool)
  | storeExitCode (code : Int32)
  | storeHandler (registered : Bool)
  | swapPending (count : UInt32)
  | clearInterrupt
  | loadExit (requested : Bool)
  | loadExitCode (code : Int32)
deriving DecidableEq

/-- One atomic operation: the cells after it, where the call goes on, and what
was done. -/
def advance (state : SignalState) :
    Point → Option (SignalState × Point × Operation)
  | .loadHandler =>
      some (state,
        if state.jsSigintHandler then .addPending else .swapInterrupt,
        .loadHandler state.jsSigintHandler)
  | .addPending =>
      some ({ state with pendingSigint := state.pendingSigint + 1 },
        .returned (.flag false), .addPending)
  | .swapInterrupt =>
      some ({ state with interrupt := true },
        if state.interrupt then .swapExit Signal.interrupt.exitCode true
        else .returned (.flag false),
        .swapInterrupt state.interrupt)
  | .swapExit code delivering =>
      some ({ state with exitRequested := true },
        if state.exitRequested then .returned (.flag delivering)
        else .storeExitCode code delivering,
        .swapExit code state.exitRequested)
  | .storeExitCode code _ =>
      some ({ state with exitCode := code }, .returned (.flag true),
        .storeExitCode code)
  | .storeHandler registered =>
      some ({ state with jsSigintHandler := registered }, .returned .unit,
        .storeHandler registered)
  | .swapPending =>
      some ({ state with pendingSigint := 0 },
        .returned (.count state.pendingSigint),
        .swapPending state.pendingSigint)
  | .clearInterrupt =>
      some ({ state with interrupt := false }, .returned .unit,
        .clearInterrupt)
  | .loadExit =>
      some (state,
        if state.exitRequested then .loadExitCode
        else .returned (.exitCode none),
        .loadExit state.exitRequested)
  | .loadExitCode =>
      some (state, .returned (.exitCode (some state.exitCode)),
        .loadExitCode state.exitCode)
  | .returned _ => none

/-- A call that was made and where it stands. -/
structure Thread where
  call : Call
  point : Point
deriving DecidableEq

/-- The cells, all calls made so far, and the operations done, newest
first. -/
structure System where
  state : SignalState := {}
  threads : List Thread := []
  log : List (Nat × Operation) := []
deriving DecidableEq

inductive Action where
  | invoke (call : Call)
  | run (thread : Nat)
deriving DecidableEq

/-- A call is made, or one call performs one operation. -/
def System.act (system : System) : Action → System
  | .invoke call =>
      { system with threads := system.threads ++ [⟨call, call.start⟩] }
  | .run id =>
      match system.threads[id]? with
      | none => system
      | some thread =>
          match advance system.state thread.point with
          | none => system
          | some (state, point, operation) =>
              { state
                threads := system.threads.set id { thread with point }
                log := (id, operation) :: system.log }

/-- Any interleaving of calls and operations. -/
def System.acts (system : System) (actions : List Action) : System :=
  actions.foldl System.act system

end Fusor.Host
