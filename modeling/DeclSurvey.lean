import DeclSurvey.Main
import DeclSurvey.Proofs.ConventionalFile
import DeclSurvey.Proofs.TrailingComment
import DeclSurvey.Proofs.FirstMethod
import DeclSurvey.Proofs.Erasure
import DeclSurvey.Proofs.Framing
import DeclSurvey.Proofs.Layout
import DeclSurvey.Proofs.Insertion
import DeclSurvey.Proofs.Discovery
import DeclSurvey.Proofs.Effects
import DeclSurvey.Proofs.Decoding
import DeclSurvey.Proofs.Accounting
import DeclSurvey.Proofs.HeadingParts
import DeclSurvey.Proofs.Imports
import DeclSurvey.Proofs.BodyStretch
import DeclSurvey.Proofs.HeadAndRest
import DeclSurvey.Proofs.Spacing
import DeclSurvey.Proofs.HeadingSpacing
import DeclSurvey.Proofs.SameLineBrace
import DeclSurvey.Proofs.HeadingShape
import DeclSurvey.Proofs.LeadingWords
import DeclSurvey.Proofs.MemberShape
import DeclSurvey.Proofs.LiteralPattern
import DeclSurvey.Proofs.CompactLine
import DeclSurvey.Proofs.LookupOrder
import DeclSurvey.Proofs.LineByLine
import DeclSurvey.Proofs.WalkedPaths
import DeclSurvey.Proofs.TomlText
import DeclSurvey.Proofs.WrittenSettings
