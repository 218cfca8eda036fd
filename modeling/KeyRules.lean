import KeyRules.CommandLine.Run
import KeyRules.Engine.Run
import KeyRules.Main
import KeyRules.Proofs.Assembly
import KeyRules.Proofs.BufferResolution
import KeyRules.Proofs.ChordEnding
import KeyRules.Proofs.ChordOrder
import KeyRules.Proofs.ChordOverlaps
import KeyRules.Proofs.ChordWindow
import KeyRules.Proofs.CommandLine.FilesAfter
import KeyRules.Proofs.Compiled
import KeyRules.Proofs.DoubleTapFlag
import KeyRules.Proofs.DoubleTapPairs
import KeyRules.Proofs.DueTimers
import KeyRules.Proofs.Engine.Akin
import KeyRules.Proofs.Engine.Alike
import KeyRules.Proofs.Engine.Balance
import KeyRules.Proofs.Engine.Bare
import KeyRules.Proofs.Engine.Calm
import KeyRules.Proofs.Engine.Candidates
import KeyRules.Proofs.Engine.ChordBuffer
import KeyRules.Proofs.Engine.ChordRules
import KeyRules.Proofs.Engine.Chronicle
import KeyRules.Proofs.Engine.Deadlines
import KeyRules.Proofs.Engine.DelayedActions
import KeyRules.Proofs.Engine.Exclusive
import KeyRules.Proofs.Engine.FirstTap
import KeyRules.Proofs.Engine.Flags
import KeyRules.Proofs.Engine.Gates
import KeyRules.Proofs.Engine.Growth
import KeyRules.Proofs.Engine.InStep
import KeyRules.Proofs.Engine.Indicators
import KeyRules.Proofs.Engine.IsolatedChord
import KeyRules.Proofs.Engine.Keys
import KeyRules.Proofs.Engine.LazyFate
import KeyRules.Proofs.Engine.LazyHold
import KeyRules.Proofs.Engine.LazyJournal
import KeyRules.Proofs.Engine.LonePress
import KeyRules.Proofs.Engine.Origins
import KeyRules.Proofs.Engine.Outcomes
import KeyRules.Proofs.Engine.OwnKeys
import KeyRules.Proofs.Engine.PhysicalKeys
import KeyRules.Proofs.Engine.Precedence
import KeyRules.Proofs.Engine.Presses
import KeyRules.Proofs.Engine.Reachable
import KeyRules.Proofs.Engine.Recast
import KeyRules.Proofs.Engine.Renumbering
import KeyRules.Proofs.Engine.Session
import KeyRules.Proofs.Engine.SharedFlag
import KeyRules.Proofs.Engine.Slices
import KeyRules.Proofs.Engine.TimerLoop
import KeyRules.Proofs.Engine.Timers
import KeyRules.Proofs.Engine.Unarmed
import KeyRules.Proofs.EntrySummary
import KeyRules.Proofs.GateFlags
import KeyRules.Proofs.GroupOrder
import KeyRules.Proofs.HoldFirst
import KeyRules.Proofs.HoldFlags
import KeyRules.Proofs.Json.Members
import KeyRules.Proofs.Json.Paths
import KeyRules.Proofs.Karabiner.Decoding
import KeyRules.Proofs.Karabiner.PasteQuoting
import KeyRules.Proofs.Karabiner.ProfileUpdate
import KeyRules.Proofs.LayerFlag
import KeyRules.Proofs.LayerShorthand
import KeyRules.Proofs.LazyModifiers
import KeyRules.Proofs.LetterCase
import KeyRules.Proofs.ModifierSpelling
import KeyRules.Proofs.PassThrough
import KeyRules.Proofs.Placement
import KeyRules.Proofs.RuleOrder
import KeyRules.Proofs.TapFirst
import KeyRules.Proofs.TapTiming
import KeyRules.Proofs.Text.Suggestions
import KeyRules.Proofs.TimeShift
