import CodePatch.Main
import CodePatch.Breakpoint.Script
import CodePatch.Proofs.Binhack.Independent
import CodePatch.Proofs.Cave.Stage
import CodePatch.Proofs.Code.Address
import CodePatch.Proofs.Engine.History
import CodePatch.Proofs.Memory.Operations
import CodePatch.Proofs.Engine.Counts
import CodePatch.Proofs.Engine.Questions
import CodePatch.Proofs.Cave.Interference
import CodePatch.Proofs.Cave.Packing
import CodePatch.Proofs.Engine.Ignored
import CodePatch.Proofs.Code.Printed
import CodePatch.Proofs.Breakpoint.Table
import CodePatch.Proofs.Breakpoint.States
import CodePatch.Proofs.Expression.Skipping
import CodePatch.Proofs.Expression.Bounds
import CodePatch.Proofs.Expression.Terminator
import CodePatch.Proofs.Expression.Levels
import CodePatch.Proofs.Breakpoint.Dereference
import CodePatch.Proofs.Breakpoint.Unclosed
import CodePatch.Proofs.Breakpoint.Sizes
import CodePatch.Proofs.Memory.Check
import CodePatch.Proofs.Code.Names
import CodePatch.Proofs.Negation
import CodePatch.Proofs.Widths
import CodePatch.Proofs.CommandLine.Hexdump
import CodePatch.Proofs.TextOptions
import CodePatch.Proofs.Engine.Accesses
import CodePatch.Proofs.Engine.Contents
import CodePatch.Proofs.Expression.Literals
