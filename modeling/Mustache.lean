import Mustache.Fixture
import Mustache.Proofs.Balance
import Mustache.Proofs.Closing
import Mustache.Proofs.Columns
import Mustache.Proofs.Json.Offenders
import Mustache.Proofs.Json.ReadBack
import Mustache.Proofs.Lexing.ReadingOrder
import Mustache.Proofs.Lexing.Renaming
import Mustache.Proofs.Lexing.Replacing
import Mustache.Proofs.Lexing.Resumption
import Mustache.Proofs.Lexing.ShortWindow
import Mustache.Proofs.Lookup.Padding
import Mustache.Proofs.Lookup.Path
import Mustache.Proofs.Lookup.Root
import Mustache.Proofs.Lookup.Shadowing
import Mustache.Proofs.Nearness
import Mustache.Proofs.Nearness.Symmetry
import Mustache.Proofs.Polarity
import Mustache.Proofs.Reading
import Mustache.Proofs.Rendering.Comment
import Mustache.Proofs.Rendering.Duality
import Mustache.Proofs.Rendering.Escaping
import Mustache.Proofs.Rendering.Inline
import Mustache.Proofs.Rendering.Places
import Mustache.Proofs.Rendering.RawTags
import Mustache.Proofs.Rendering.Registry
import Mustache.Proofs.Rendering.Replacing
import Mustache.Proofs.Rendering.Roots
import Mustache.Proofs.Rendering.Truncation
import Mustache.Proofs.Rendering.Visible
import Mustache.Proofs.Rendering.Workshop
import Mustache.Proofs.Respelling
import Mustache.Proofs.Rounding
import Mustache.Proofs.Rounding.Decimals
import Mustache.Proofs.Spelling
import Mustache.Proofs.Text.Bytes
import Mustache.Proofs.Text.Replacing
import Mustache.Settings
