import VoiceScript.Text.Bytes
import VoiceScript.Text.Quoted
import VoiceScript.Text.Classes
import VoiceScript.KindSet
import VoiceScript.Tokenizer.Session
import VoiceScript.Parser.Grammar
import VoiceScript.Tree
import VoiceScript.Parse
import VoiceScript.Dump
import VoiceScript.Comment
import VoiceScript.Diagnostic.Snippet
import VoiceScript.Cli.Arguments
import VoiceScript.Cli.Folder
import VoiceScript.Main
import VoiceScript.Proofs.Positions
import VoiceScript.Proofs.Reading
import VoiceScript.Proofs.Lookahead
import VoiceScript.Proofs.Writing
import VoiceScript.Proofs.Productions
import VoiceScript.Proofs.Lossless
import VoiceScript.Proofs.LineLocal
import VoiceScript.Proofs.Rounds
import VoiceScript.Proofs.Starts
import VoiceScript.Proofs.Dispatch
import VoiceScript.Proofs.Modes
import VoiceScript.Proofs.Recast
import VoiceScript.Proofs.Shape
import VoiceScript.Proofs.Runs
import VoiceScript.Proofs.Contents
import VoiceScript.Proofs.Seam
import VoiceScript.Proofs.Shift
import VoiceScript.Proofs.Lines
import VoiceScript.Proofs.Rules
import VoiceScript.Proofs.CommentedLine
import VoiceScript.Proofs.EditList
import VoiceScript.Proofs.Untouched
import VoiceScript.Proofs.RuleTwice
import VoiceScript.Proofs.LineTable
import VoiceScript.Proofs.Placed
import VoiceScript.Proofs.Folds
import VoiceScript.Proofs.Scans
import VoiceScript.Proofs.Coverage
import VoiceScript.Proofs.Patterns
import VoiceScript.Proofs.LongestMatch
import VoiceScript.Proofs.CommentedTokens
import VoiceScript.Proofs.FoldEnds
import VoiceScript.Proofs.LineByLine
import VoiceScript.Proofs.CommandLine
import VoiceScript.Proofs.StoredFile
import VoiceScript.Proofs.ToggleTwice
import VoiceScript.Proofs.LineModes
import VoiceScript.Proofs.LiteralEnds
import VoiceScript.Proofs.LineLook
import VoiceScript.Proofs.Views
import VoiceScript.Proofs.Parentheses
import VoiceScript.Proofs.RuleFolds
import VoiceScript.Proofs.EditedLines
import VoiceScript.Proofs.DumpReading
import VoiceScript.Proofs.HeaderValues
import VoiceScript.Proofs.LinePartition
