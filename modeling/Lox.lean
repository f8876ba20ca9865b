import Lox.Main
import Lox.Proofs.Bound
import Lox.Proofs.BoundedOutput
import Lox.Proofs.CommentBytes
import Lox.Proofs.Concatenation
import Lox.Proofs.History
import Lox.Proofs.LineCount
import Lox.Proofs.Lockstep
import Lox.Proofs.Omission
import Lox.Proofs.PostfixForm
import Lox.Proofs.PrefixLanguage
import Lox.Proofs.Preorder
import Lox.Proofs.Progress
import Lox.Proofs.Prompt
import Lox.Proofs.Recognition
import Lox.Proofs.Recovery
import Lox.Proofs.Reporting
import Lox.Proofs.Rescanning
import Lox.Proofs.Reuse
import Lox.Proofs.Segmentation
import Lox.Proofs.Sentences
import Lox.Proofs.Standing
import Lox.Proofs.Typing
