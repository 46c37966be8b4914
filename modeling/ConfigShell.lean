import ConfigShell.Editor.Completion
import ConfigShell.Host.FileTree
import ConfigShell.Landing.Arena
import ConfigShell.Main
import ConfigShell.Prompt.Highlight
import ConfigShell.Prompt.History
import ConfigShell.Prompt.Suggestions
import ConfigShell.Proofs.Line.Layout
import ConfigShell.Proofs.Line.Within
import ConfigShell.Proofs.Line.Lines
import ConfigShell.Proofs.Line.Recovery
import ConfigShell.Proofs.Line.Carried
import ConfigShell.Proofs.Line.ReadBack
import ConfigShell.Proofs.Effects
import ConfigShell.Proofs.Alike
import ConfigShell.Proofs.Tree.Confinement
import ConfigShell.Proofs.Tree.Leading
import ConfigShell.Proofs.Tree.Standing
import ConfigShell.Proofs.Tree.Unasked
import ConfigShell.Proofs.Tree.Bare
import ConfigShell.Proofs.Session.Outcomes
import ConfigShell.Proofs.Session.Discipline
import ConfigShell.Proofs.Session.SavedPath
import ConfigShell.Proofs.Line.Ended
import ConfigShell.Proofs.Session.Alike
import ConfigShell.Proofs.Session.Arguments
import ConfigShell.Proofs.Session.Cut
import ConfigShell.Proofs.Session.Diagnosis
import ConfigShell.Proofs.Tree.Asked
import ConfigShell.Proofs.Session.Asking
import ConfigShell.Proofs.Line.Inserted
import ConfigShell.Proofs.Tree.Suggested
import ConfigShell.Proofs.Session.Completing
import ConfigShell.Proofs.Probe.Pieces
import ConfigShell.Proofs.Line.Reported
import ConfigShell.Proofs.Tree.Cited
import ConfigShell.Proofs.Session.Trail
import ConfigShell.Proofs.Session.Typed
import ConfigShell.Proofs.Steady
import ConfigShell.Proofs.Session.Steady
import ConfigShell.Proofs.Session.Isolation
import ConfigShell.Proofs.Ends
import ConfigShell.Proofs.Tree.Ends
import ConfigShell.Proofs.Session.Ends
import ConfigShell.Proofs.CommandLine.Options
import ConfigShell.Proofs.CommandLine.Exit
import ConfigShell.Proofs.Text.Beginning
import ConfigShell.Proofs.Tree.Abbreviated
import ConfigShell.Proofs.Session.Offering
import ConfigShell.Proofs.Line.Rooted
import ConfigShell.Proofs.Tree.Again
import ConfigShell.Proofs.Session.Accepting
import ConfigShell.Proofs.Probe.Keyed
import ConfigShell.Proofs.Line.Offsets
import ConfigShell.Proofs.Tree.Matched
import ConfigShell.Proofs.Session.FromTop
import ConfigShell.Proofs.Line.Marked
import ConfigShell.Proofs.Text.Boundary
import ConfigShell.Proofs.Line.Extended
import ConfigShell.Proofs.Prompt.Highlighted
import ConfigShell.Proofs.Prompt.Continued
import ConfigShell.Proofs.Mute
import ConfigShell.Proofs.Session.Notices
import ConfigShell.Proofs.Prompt.Positions
import ConfigShell.Proofs.Probe.Capped
import ConfigShell.Proofs.Line.Physical
import ConfigShell.Proofs.Line.Located
import ConfigShell.Proofs.Line.Around
import ConfigShell.Proofs.Line.Underlined
import ConfigShell.Proofs.Text.Order
import ConfigShell.Proofs.Tree.Enumerated
import ConfigShell.Proofs.Text.Lines
import ConfigShell.Proofs.Text.WellFormed
import ConfigShell.Proofs.Prompt.Remembered
import ConfigShell.Proofs.Line.Accumulated
