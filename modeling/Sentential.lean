import Sentential.Main
import Sentential.Proofs.Cuts
import Sentential.Proofs.Flat
import Sentential.Proofs.Outline
import Sentential.Proofs.Naming
import Sentential.Proofs.Display
import Sentential.Proofs.Grammar
import Sentential.Proofs.Reading
import Sentential.Proofs.Joining
import Sentential.Proofs.Moved
import Sentential.Proofs.Consistency
import Sentential.Proofs.Lines
import Sentential.Proofs.Spoken
import Sentential.Proofs.RoundTrip
import Sentential.Proofs.Runs
import Sentential.Proofs.Letters
import Sentential.Proofs.Origins
import Sentential.Proofs.Recut
import Sentential.Proofs.Displaced
import Sentential.Proofs.ReadBack
import Sentential.Proofs.RoundTripLaw
import Sentential.Proofs.Conditions
import Sentential.Proofs.Acceptance
import Sentential.Proofs.ContentWords
import Sentential.Proofs.WordLists
import Sentential.Proofs.ClauseTexts
import Sentential.Proofs.Indexes
import Sentential.Proofs.Freshness
import Sentential.Proofs.Asking
import Sentential.Proofs.InputLines
import Sentential.Proofs.Arguments
import Sentential.Proofs.Prompting
import Sentential.Proofs.Spans
import Sentential.Proofs.Respelling
import Sentential.Proofs.JsonGrammar
import Sentential.Proofs.OutputModes
import Sentential.Proofs.Places
import Sentential.Proofs.Initializing
import Sentential.Proofs.Spellings
import Sentential.Proofs.Glyphs
import Sentential.Proofs.Styling
import Sentential.Proofs.UniqueReading
import Sentential.Proofs.Discovery
import Sentential.Proofs.Preambles
import Sentential.Proofs.EndMarks
import Sentential.Proofs.RepeatedNegation
import Sentential.Proofs.VerbExtension
import Sentential.Proofs.Tables
import Sentential.Proofs.MeaningTables
import Sentential.Proofs.DocumentLayers
import Sentential.Proofs.Layering
import Sentential.Proofs.NearestSettings
import Sentential.Proofs.Cursors
import Sentential.Proofs.PlainScalars
import Sentential.Proofs.QuotedScalars
import Sentential.Proofs.LiteralScalars
import Sentential.Proofs.WrittenScalars
import Sentential.Proofs.Scanning
import Sentential.Proofs.Indicators
import Sentential.Proofs.SavedTokens
import Sentential.Proofs.SavedNodes
import Sentential.Proofs.SavedSettings
import Sentential.Proofs.SavedValues
import Sentential.Proofs.Enumeration
import Sentential.Proofs.CutsByPlaces
import Sentential.Proofs.Columns
import Sentential.Proofs.PrintedLegends
