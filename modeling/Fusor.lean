import Fusor.Bytecode.AssemblerCorrectness
import Fusor.Bytecode.Stream
import Fusor.Verifier.StackSoundness
import Fusor.RegExp.TerminalRepeat
import Fusor.RegExp.Safety
import Fusor.Runtime.RopeDepth
import Fusor.Runtime.BigIntBits
import Fusor.Runtime.ArenaRuns
import Fusor.Runtime.DefinePropertyInvariants
import Fusor.Runtime.MapRefinement
import Fusor.Json.RoundTrip
import Fusor.Runtime.AtomRuns
import Fusor.Modules.EvaluationCorrectness
import Fusor.Atomics.Protocol
import Fusor.Gc.Survival
import Fusor.Verifier.FunctionTopology
import Fusor.Bytecode.Layout
import Fusor.RegExp.CaseRange
import Fusor.RegExp.ClassSet
import Fusor.Host.SignalPolicy
import Fusor.Host.TimersKept
import Fusor.Host.Checkpoints
import Fusor.Runtime.PropertyKeys
import Fusor.Runtime.BigIntGrammar
import Fusor.Runtime.BigIntSizeErrors
import Fusor.RegExp.PatternSizing
import Fusor.Runtime.OwnKeyOrder
import Fusor.Modules.NameTransport
import Fusor.Runtime.CivilDays
import Fusor.Diagnostics.MappedSpans
import Fusor.Runtime.DecimalDigits
