import LayeredConfig.Environment.Guard
import LayeredConfig.Proofs.LastWrite
import LayeredConfig.Proofs.MarkEffects
import LayeredConfig.Proofs.RecordedOrigins
import LayeredConfig.Proofs.UnknownKeys
import LayeredConfig.Proofs.Conformance
import LayeredConfig.Proofs.Groups
import LayeredConfig.Proofs.SettingsAgreement
import LayeredConfig.Proofs.ExactOrigins
import LayeredConfig.Proofs.Blame
import LayeredConfig.Proofs.Reports
import LayeredConfig.Proofs.Mismatches
import LayeredConfig.Proofs.UnknownBlame
import LayeredConfig.Proofs.Isolation
import LayeredConfig.Proofs.FieldVariables
import LayeredConfig.Proofs.SettingsTrees
import LayeredConfig.Proofs.RoundTrip
import LayeredConfig.Proofs.PlainTrees
import LayeredConfig.Proofs.Supplied
import LayeredConfig.Proofs.NullMembers
import LayeredConfig.Proofs.Serialization
import LayeredConfig.Proofs.TextAndFile
import LayeredConfig.Proofs.GuardedRuns
import LayeredConfig.Proofs.Spellings
import LayeredConfig.Proofs.OverrideFrame
import LayeredConfig.Proofs.LogsAndValues
import LayeredConfig.Proofs.RepeatedSources
import LayeredConfig.Proofs.ReportedPaths
import LayeredConfig.Proofs.ValuesForTables
import LayeredConfig.Proofs.VariableValues
import LayeredConfig.Proofs.CommutingLayers
import LayeredConfig.Proofs.LossyDecoding
import LayeredConfig.Proofs.ReportLines
import LayeredConfig.Proofs.AppliedKeys
import LayeredConfig.Proofs.VariableOutcomes
