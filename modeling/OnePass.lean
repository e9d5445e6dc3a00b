import OnePass.Bytecode.Instruction
import OnePass.Bytecode.OperatorPlan
import OnePass.Bytes.Basic
import OnePass.Bytes.Reader
import OnePass.Bytes.Writer
import OnePass.CommandLine.Arguments
import OnePass.CommandLine.Needed
import OnePass.CommandLine.Run
import OnePass.Compiler.Build
import OnePass.Compiler.Declaration
import OnePass.Compiler.Directive
import OnePass.Compiler.Expression
import OnePass.Compiler.State
import OnePass.Compiler.Step
import OnePass.Decimal.Shortest
import OnePass.Diagnostic
import OnePass.Draft.Emission
import OnePass.Draft.Method
import OnePass.Draft.Type
import OnePass.Files.Path
import OnePass.Files.Tree
import OnePass.Main
import OnePass.Module.Basic
import OnePass.Module.File
import OnePass.Module.Image
import OnePass.Module.Listing
import OnePass.Module.Register
import OnePass.Options.Basic
import OnePass.Options.Json
import OnePass.Problem
import OnePass.Session.Basic
import OnePass.Session.Reference
import OnePass.Symbols.Host
import OnePass.Symbols.Lookup
import OnePass.Symbols.Table
import OnePass.Text.Quoted
import OnePass.Text.Split
import OnePass.Text.Visible
import OnePass.Token.Basic
import OnePass.Token.File
import OnePass.Token.Kinds
import OnePass.Proofs.Codec
import OnePass.Proofs.TokenFile
import OnePass.Proofs.ModuleFile
import OnePass.Proofs.ModuleImage
import OnePass.Proofs.SelfDelimiting
import OnePass.Proofs.Expression.Syntax
import OnePass.Proofs.Expression.OpenBody
import OnePass.Proofs.Expression.Operands
import OnePass.Proofs.Expression.Brackets
import OnePass.Proofs.Expression.Lists
import OnePass.Proofs.Expression.Reading
import OnePass.Proofs.Expression.Statement
import OnePass.Proofs.Integrity.Outcome
import OnePass.Proofs.Integrity.Symbols
import OnePass.Proofs.Integrity.Table
import OnePass.Proofs.Integrity.Growth
import OnePass.Proofs.Integrity.Lookup
import OnePass.Proofs.Integrity.Draft
import OnePass.Proofs.Integrity.Session
import OnePass.Proofs.Integrity.Action
import OnePass.Proofs.Integrity.Expression
import OnePass.Proofs.Integrity.Declaration
import OnePass.Proofs.Integrity.Step
import OnePass.Proofs.Integrity.Budget
import OnePass.Proofs.Integrity.Build
import OnePass.Proofs.Inclusion
import OnePass.Proofs.Termination
import OnePass.Proofs.Outline.Action
import OnePass.Proofs.Outline.Clause
import OnePass.Proofs.Outline.Expression
import OnePass.Proofs.Outline.Declaration
import OnePass.Proofs.Outline.Step
import OnePass.Proofs.Nesting
import OnePass.Proofs.Bodies.Account
import OnePass.Proofs.Bodies.Complete
import OnePass.Proofs.Sealing
import OnePass.Proofs.Apart.Action
import OnePass.Proofs.Apart.Expression
import OnePass.Proofs.Apart.Step
import OnePass.Proofs.TryRegion
import OnePass.Proofs.LineBreak
import OnePass.Proofs.Lines
import OnePass.Proofs.Finals.Ledger
import OnePass.Proofs.Finals.Frames
import OnePass.Proofs.Finals.Target
import OnePass.Proofs.Finals.Expression
import OnePass.Proofs.Finals.Brackets
import OnePass.Proofs.Finals.Step
import OnePass.Proofs.FinalAssignment
import OnePass.Proofs.Names
import OnePass.Proofs.Layers.Session
import OnePass.Proofs.Layers.Step
import OnePass.Proofs.Layers.Bodies
import OnePass.Proofs.Layers.Braces
import OnePass.Proofs.Roster
import OnePass.Proofs.FullNames
import OnePass.Proofs.ScriptMain
import OnePass.Proofs.SelfContained
import OnePass.Proofs.Agreement
import OnePass.Proofs.Layout.Method
import OnePass.Proofs.Layout.Names
import OnePass.Proofs.Layout.Action
import OnePass.Proofs.Layout.Expression
import OnePass.Proofs.Layout.Brackets
import OnePass.Proofs.Layout.Closing
import OnePass.Proofs.Layout.Declaration
import OnePass.Proofs.Layout.Step
import OnePass.Proofs.Layout.Mark
import OnePass.Proofs.Gotos
import OnePass.Proofs.ArrayLiterals
import OnePass.Proofs.InterfaceLists
import OnePass.Proofs.VariableNumbers
import OnePass.Proofs.Variables
import OnePass.Proofs.Receivers
import OnePass.Proofs.Expression.Refusal
import OnePass.Proofs.CompoundAssignment
import OnePass.Proofs.OneValue
import OnePass.Proofs.StatementEnds
import OnePass.Proofs.Increments
import OnePass.Proofs.Ancestry
