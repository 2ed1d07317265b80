import PatternDialect.Main
import PatternDialect.Workshop
import PatternDialect.Proofs.Stability
import PatternDialect.Proofs.Alignment
import PatternDialect.Proofs.Parts
import PatternDialect.Proofs.Order
import PatternDialect.Proofs.Repeating
import PatternDialect.Proofs.Emulations
import PatternDialect.Proofs.Counts
import PatternDialect.Proofs.Numbering
import PatternDialect.Proofs.InlineFlags
import PatternDialect.Proofs.Translation
import PatternDialect.Proofs.Past
import PatternDialect.Proofs.Gaps
import PatternDialect.Proofs.Progress
import PatternDialect.Proofs.Spacing
import PatternDialect.Proofs.Rendering
import PatternDialect.Proofs.Offsets
import PatternDialect.Proofs.Splicing
import PatternDialect.Proofs.Identities
import PatternDialect.Proofs.Succession
import PatternDialect.Proofs.Ungreedy
import PatternDialect.Proofs.LastUnits
import PatternDialect.Proofs.Possessive
import PatternDialect.Proofs.Regions
import PatternDialect.Proofs.Turns
import PatternDialect.Proofs.Enclosures
import PatternDialect.Proofs.Zeros
import PatternDialect.Proofs.EscapedDigits
import PatternDialect.Proofs.Templates
import PatternDialect.Proofs.Literals
import PatternDialect.Proofs.LiteralClasses
import PatternDialect.Proofs.Refinement
import PatternDialect.Proofs.Tables
import PatternDialect.Proofs.Quantifiers
import PatternDialect.Proofs.Parity
import PatternDialect.Proofs.Symbols
