import ScalarC.Main
import ScalarC.Proofs.Image.Soundness
import ScalarC.Proofs.Resolution.Hiding
import ScalarC.Proofs.Typing.Soundness
import ScalarC.Proofs.Spelling.Grammar
import ScalarC.Proofs.Spelling.Gaps
import ScalarC.Proofs.Spelling.Numerals
import ScalarC.Proofs.Numbers.Floats
import ScalarC.Proofs.Spelling.Cutting
import ScalarC.Proofs.Spelling.Joining
import ScalarC.Proofs.Spelling.Breaks
import ScalarC.Proofs.Spelling.Endings
import ScalarC.Proofs.Numbers.Conversion
import ScalarC.Proofs.Spelling.Resuming
import ScalarC.Proofs.Phrase.Desugaring
import ScalarC.Proofs.Command.Ambiguity
import ScalarC.Proofs.Command.Effects
import ScalarC.Proofs.Command.Completeness
import ScalarC.Proofs.Item.Initializers
import ScalarC.Proofs.Item.Completeness
import ScalarC.Proofs.Item.Acceptance
import ScalarC.Proofs.Item.Separation
import ScalarC.Proofs.Item.Prefixes
import ScalarC.Proofs.Directory
import ScalarC.Proofs.Twins.Layout
import ScalarC.Proofs.Twins.Naming
import ScalarC.Proofs.Cursor.Parsers
import ScalarC.Proofs.Twins.Blame
import ScalarC.Proofs.Cursor.Bounds
import ScalarC.Proofs.Cursor.Safety
import ScalarC.Proofs.Cursor.Brackets
import ScalarC.Proofs.Contents
import ScalarC.Proofs.Json.Blanks
import ScalarC.Proofs.Json.Lossless
import ScalarC.Proofs.Outline.Entries
import ScalarC.Proofs.Outline.Determined
import ScalarC.Proofs.Braces.Blocks
