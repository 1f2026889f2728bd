import RegisterMap.Description
import RegisterMap.Draft
import RegisterMap.Field
import RegisterMap.Finding
import RegisterMap.Header.Comment
import RegisterMap.Header.Extract
import RegisterMap.Header.Grammar
import RegisterMap.Header.Model
import RegisterMap.Header.Record
import RegisterMap.IndexedName
import RegisterMap.Layout.BitSpan
import RegisterMap.Layout.Declaration
import RegisterMap.Layout.Plan
import RegisterMap.Layout.Print
import RegisterMap.Layout.Run
import RegisterMap.Log
import RegisterMap.Main
import RegisterMap.Markup
import RegisterMap.Peripheral
import RegisterMap.Proofs.Header.Descriptions
import RegisterMap.Proofs.Header.Reading
import RegisterMap.Proofs.Header.RoundTrip
import RegisterMap.Proofs.Header.Written
import RegisterMap.Proofs.Layout.Addresses
import RegisterMap.Proofs.Layout.Coverage
import RegisterMap.Proofs.Layout.Elements
import RegisterMap.Proofs.Layout.Failure
import RegisterMap.Proofs.Layout.Partition
import RegisterMap.Proofs.Layout.Tiling
import RegisterMap.Proofs.Model.Ledger
import RegisterMap.Proofs.Model.StableOrder
import RegisterMap.Proofs.Text.Scan
import RegisterMap.Register
import RegisterMap.Sorted
import RegisterMap.Text.Basic
import RegisterMap.Text.Blank
import RegisterMap.Text.Line
import RegisterMap.Text.Numeral
import RegisterMap.Text.Quoted
import RegisterMap.Text.Scan
import RegisterMap.Text.Visible
import RegisterMap.Tool.Path
import RegisterMap.Tool.Request
import RegisterMap.Tool.System
import RegisterMap.Tool.Script
import RegisterMap.Tool.Workspace
import RegisterMap.Tool.World
import RegisterMap.Proofs.Header.Kept
import RegisterMap.Proofs.Header.Places
import RegisterMap.Proofs.Header.Anchors
import RegisterMap.Proofs.Layout.Undescribed
import RegisterMap.Proofs.Layout.Comments
import RegisterMap.Proofs.Layout.TypeNames
import RegisterMap.Proofs.Model.ReadBack
import RegisterMap.Proofs.Header.Names
import RegisterMap.Proofs.Tool.Files
import RegisterMap.Proofs.Tool.Writes
import RegisterMap.Proofs.Tool.Steps
import RegisterMap.Proofs.Tool.Diagnostics
import RegisterMap.Proofs.Tool.Artifacts
import RegisterMap.Proofs.Layout.MemberNames
import RegisterMap.Proofs.Model.ExactFindings
import RegisterMap.Proofs.Header.LowerLines
import RegisterMap.Proofs.Header.FrontComment
import RegisterMap.Proofs.Layout.TemplateNames
import RegisterMap.Proofs.Header.UnusablePair
import RegisterMap.Proofs.Header.NamePrefix
import RegisterMap.Proofs.Header.Untagged
import RegisterMap.Proofs.Header.CommentLines
import RegisterMap.Proofs.Layout.SameTemplate
import RegisterMap.Proofs.Tool.LineEnds
import RegisterMap.Proofs.Header.CleanDescriptions
import RegisterMap.Proofs.Header.Decoration
import RegisterMap.Proofs.Model.IndexedName
