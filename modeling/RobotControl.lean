import RobotControl.Command
import RobotControl.CommandLine.Options
import RobotControl.CommandLine.Transcript
import RobotControl.DryRun
import RobotControl.Eval
import RobotControl.Exec
import RobotControl.Expr
import RobotControl.Fault
import RobotControl.FileTree
import RobotControl.Keyword
import RobotControl.Literal
import RobotControl.Load
import RobotControl.Main
import RobotControl.Note
import RobotControl.ParseError
import RobotControl.Program
import RobotControl.Program.Parser
import RobotControl.Program.Printer
import RobotControl.Proofs.Agreement
import RobotControl.Proofs.Transitions
import RobotControl.Robot
import RobotControl.Robot.Playback
import RobotControl.Robot.Scripted
import RobotControl.Sequencing
import RobotControl.Stepper
import RobotControl.Token
import RobotControl.Token.Lexer
import RobotControl.Proofs.Tracking
import RobotControl.Proofs.Equivalence
import RobotControl.Proofs.Grammar
import RobotControl.Proofs.Parsing
import RobotControl.Proofs.RoundTrip
import RobotControl.Proofs.Idling
import RobotControl.Proofs.Conclusion
import RobotControl.Proofs.DryRunVerdict
import RobotControl.Proofs.Lookahead
import RobotControl.Proofs.Misfit
import RobotControl.Proofs.Depth
import RobotControl.Proofs.IdleRounds
import RobotControl.Proofs.StepBound
import RobotControl.Proofs.CallLog
import RobotControl.Proofs.Replay
import RobotControl.Proofs.DelimiterRule
import RobotControl.Proofs.Layout
import RobotControl.Proofs.Concatenation
import RobotControl.Proofs.SensorUse
import RobotControl.Proofs.Accounting
import RobotControl.Proofs.StackShape
import RobotControl.Proofs.ExactArithmetic
import RobotControl.Proofs.ShortCircuit
import RobotControl.Proofs.NearestBarrel
import RobotControl.Proofs.Completion
import RobotControl.Proofs.Diagnosis
import RobotControl.Proofs.Progress
import RobotControl.Proofs.PrintedLines
import RobotControl.Proofs.PhraseRoundTrip
import RobotControl.Proofs.DecimalValue
