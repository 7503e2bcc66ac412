import Questionnaire.Collection
import Questionnaire.CommandLine.Arguments
import Questionnaire.CommandLine.Run
import Questionnaire.CommandLine.Schema
import Questionnaire.Component.Basic
import Questionnaire.Component.Display
import Questionnaire.Component.Edit
import Questionnaire.Component.Format
import Questionnaire.Duration
import Questionnaire.Edit.Error
import Questionnaire.Editor.Arena
import Questionnaire.Editor.Edit
import Questionnaire.Engine.Action
import Questionnaire.Engine.Compound
import Questionnaire.Engine.Condition
import Questionnaire.Engine.Event
import Questionnaire.Engine.Participant
import Questionnaire.Engine.Prefill
import Questionnaire.Export.Plan
import Questionnaire.Export.Run
import Questionnaire.Expression.Basic
import Questionnaire.Expression.Format
import Questionnaire.Expression.Traversal
import Questionnaire.Files.Basic
import Questionnaire.Files.Folder
import Questionnaire.Item.Basic
import Questionnaire.Item.Edit
import Questionnaire.Item.Format
import Questionnaire.Item.Question
import Questionnaire.Item.Tree
import Questionnaire.Json.Basic
import Questionnaire.Json.Outline
import Questionnaire.Json.Outline.Text
import Questionnaire.Json.Printer
import Questionnaire.Json.Reader
import Questionnaire.Json.Record
import Questionnaire.Key
import Questionnaire.Main
import Questionnaire.Number.Decimal
import Questionnaire.Number.Double
import Questionnaire.Number.Layout
import Questionnaire.Number.Shortest
import Questionnaire.Proofs.Component.Format
import Questionnaire.Proofs.Component.Keys
import Questionnaire.Proofs.Dict
import Questionnaire.Proofs.Edit.Run
import Questionnaire.Proofs.Editor.Addition
import Questionnaire.Proofs.Editor.Addressing
import Questionnaire.Proofs.Editor.Agreement
import Questionnaire.Proofs.Editor.Ancestry
import Questionnaire.Proofs.Editor.Attach
import Questionnaire.Proofs.Editor.Commutation
import Questionnaire.Proofs.Editor.Find
import Questionnaire.Proofs.Editor.Insert
import Questionnaire.Proofs.Editor.Layout
import Questionnaire.Proofs.Editor.Listing
import Questionnaire.Proofs.Editor.Lookup
import Questionnaire.Proofs.Editor.Merge
import Questionnaire.Proofs.Editor.Move
import Questionnaire.Proofs.Editor.NodeTree
import Questionnaire.Proofs.Editor.Open
import Questionnaire.Proofs.Editor.Reachable
import Questionnaire.Proofs.Editor.References
import Questionnaire.Proofs.Editor.Rekey
import Questionnaire.Proofs.Editor.Relabel
import Questionnaire.Proofs.Editor.Relocate
import Questionnaire.Proofs.Editor.Removal
import Questionnaire.Proofs.Editor.Remove
import Questionnaire.Proofs.Editor.Rename
import Questionnaire.Proofs.Editor.Renamings
import Questionnaire.Proofs.Editor.Serve
import Questionnaire.Proofs.Editor.Surgery
import Questionnaire.Proofs.Editor.SurveyKey
import Questionnaire.Proofs.Editor.Sweep
import Questionnaire.Proofs.Editor.Update
import Questionnaire.Proofs.Engine.OldResponses
import Questionnaire.Proofs.Export.Folders
import Questionnaire.Proofs.Export.Overwriting
import Questionnaire.Proofs.Export.Plan
import Questionnaire.Proofs.Export.Run
import Questionnaire.Proofs.Export.ScaffoldKey
import Questionnaire.Proofs.Expression.Format
import Questionnaire.Proofs.Expression.Traversal
import Questionnaire.Proofs.Files.Path
import Questionnaire.Proofs.Item.Children
import Questionnaire.Proofs.Item.ComponentKeys
import Questionnaire.Proofs.Item.Format
import Questionnaire.Proofs.Item.FreeKey
import Questionnaire.Proofs.Item.Levels
import Questionnaire.Proofs.Item.Question
import Questionnaire.Proofs.Item.Serve
import Questionnaire.Proofs.Item.Tree
import Questionnaire.Proofs.Json.Document
import Questionnaire.Proofs.Json.Fix
import Questionnaire.Proofs.Json.Numeral
import Questionnaire.Proofs.Json.Range
import Questionnaire.Proofs.Json.Reads
import Questionnaire.Proofs.Json.Record
import Questionnaire.Proofs.Json.Text
import Questionnaire.Proofs.Json.Value
import Questionnaire.Proofs.Json.Yields
import Questionnaire.Proofs.Key
import Questionnaire.Proofs.Key.Laws
import Questionnaire.Proofs.Key.Lineage
import Questionnaire.Proofs.Number.Integer
import Questionnaire.Proofs.Position
import Questionnaire.Proofs.Study.Format
import Questionnaire.Proofs.Study.Rules
import Questionnaire.Proofs.Study.Scaffold
import Questionnaire.Proofs.Survey.Congruence
import Questionnaire.Proofs.Survey.Duplicates
import Questionnaire.Proofs.Survey.Edit
import Questionnaire.Proofs.Survey.Exchange
import Questionnaire.Proofs.Survey.Format
import Questionnaire.Proofs.Survey.Placement
import Questionnaire.Proofs.Survey.References
import Questionnaire.Proofs.Survey.Relabel
import Questionnaire.Proofs.WireType
import Questionnaire.Study.Bundle
import Questionnaire.Study.Error
import Questionnaire.Study.Message
import Questionnaire.Study.Rules
import Questionnaire.Study.Scaffold
import Questionnaire.Survey.Basic
import Questionnaire.Survey.Duplicates
import Questionnaire.Survey.Edit
import Questionnaire.Survey.Format
import Questionnaire.Survey.Lookup
import Questionnaire.Survey.Placement
import Questionnaire.Text.Base64
import Questionnaire.Text.CaseTable
import Questionnaire.Text.Localized
import Questionnaire.Text.Lowercase
