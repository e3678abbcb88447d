import MessageSchema.Main
import MessageSchema.Session
import MessageSchema.Proofs.KeyEquality
import MessageSchema.Proofs.ValueEquality
import MessageSchema.Proofs.Mappings
import MessageSchema.Proofs.RenameRules
import MessageSchema.Proofs.References
import MessageSchema.Proofs.RenamedDocuments
import MessageSchema.Proofs.ReadDocuments
import MessageSchema.Proofs.OutputSchemas
import MessageSchema.Proofs.ReferenceOccurrences
import MessageSchema.Proofs.ReferenceIntegrity
import MessageSchema.Proofs.RenameComposition
import MessageSchema.Proofs.DeepReferences
import MessageSchema.Proofs.LongestTargets
import MessageSchema.Proofs.RepeatedTexts
import MessageSchema.Proofs.InsertedLeads
import MessageSchema.Proofs.HandledOccurrences
import MessageSchema.Proofs.SingleLeads
import MessageSchema.Proofs.Outcome
import MessageSchema.Proofs.Reruns
import MessageSchema.Proofs.SavedFiles
import MessageSchema.Proofs.Collisions
import MessageSchema.Proofs.NamedDefinitions
import MessageSchema.Proofs.RenamedValues
import MessageSchema.Proofs.MissedTargets
import MessageSchema.Proofs.MessageNames
import MessageSchema.Proofs.HandlerSlots
import MessageSchema.Proofs.Cursors
import MessageSchema.Proofs.RespeltGaps
import MessageSchema.Proofs.RespeltPlain
import MessageSchema.Proofs.RespeltQuoted
import MessageSchema.Proofs.RespeltBlocks
import MessageSchema.Proofs.TokenGrowth
import MessageSchema.Proofs.RespeltScans
import MessageSchema.Proofs.RespeltTokens
import MessageSchema.Proofs.RespeltNodes
import MessageSchema.Proofs.RespeltValues
import MessageSchema.Proofs.RespeltDocuments
import MessageSchema.Proofs.ClassifiedNames
import MessageSchema.Proofs.StagedCatalogs
import MessageSchema.Proofs.AgreeingRenames
import MessageSchema.Proofs.AssembledTemplates
import MessageSchema.Proofs.Identifiers
import MessageSchema.Proofs.LineShapes
import MessageSchema.Proofs.HandlerLines
import MessageSchema.Proofs.HandlerText
import MessageSchema.Proofs.HandledNames
import MessageSchema.Proofs.ResolvedSettings
import MessageSchema.Proofs.GivenOptions
import MessageSchema.Proofs.AgreeingOutputs
import MessageSchema.Proofs.ReportedNames
import MessageSchema.Proofs.AgreeingCommands
import MessageSchema.Proofs.RuleOrder
import MessageSchema.Proofs.FoldedNames
import MessageSchema.Proofs.JsonAnswers
import MessageSchema.Proofs.SessionRuns
