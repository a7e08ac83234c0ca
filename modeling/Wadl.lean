import Wadl.Charset.Basic
import Wadl.Charset.Table
import Wadl.Charset.Utf8
import Wadl.Client.Builder
import Wadl.Client.Config
import Wadl.Client.Generate
import Wadl.Client.Module
import Wadl.Client.Printer
import Wadl.Client.Settings
import Wadl.Client.Signature
import Wadl.Client.TypeTable
import Wadl.Command.Options
import Wadl.Command.Run
import Wadl.Command.Usage
import Wadl.Digest.Sha1
import Wadl.Docs.Text
import Wadl.Document.Error
import Wadl.Document.Index
import Wadl.Document.Model
import Wadl.Document.Outline
import Wadl.Document.Reader
import Wadl.Document.References
import Wadl.Document.Render
import Wadl.Document.Sourceless
import Wadl.Document.ToJson
import Wadl.Document.Vocabulary
import Wadl.Http.Address
import Wadl.Http.Exchange
import Wadl.Json.Basic
import Wadl.Json.Reader
import Wadl.Json.Writer
import Wadl.Loading.FileTree
import Wadl.Loading.Loader
import Wadl.Main
import Wadl.Naming.Scope
import Wadl.Naming.Style
import Wadl.Notice
import Wadl.Number.Binary64
import Wadl.Number.Numeral
import Wadl.Proofs.Alike
import Wadl.Proofs.Client.Accessors
import Wadl.Proofs.Client.Capture
import Wadl.Proofs.Client.Closed
import Wadl.Proofs.Client.Comments
import Wadl.Proofs.Client.Enums
import Wadl.Proofs.Client.Fixed
import Wadl.Proofs.Client.Hiding
import Wadl.Proofs.Client.Inheritance
import Wadl.Proofs.Client.Internal
import Wadl.Proofs.Client.Layout
import Wadl.Proofs.Client.Modes
import Wadl.Proofs.Client.Overrides
import Wadl.Proofs.Client.Parameters
import Wadl.Proofs.Client.Placeholders
import Wadl.Proofs.Client.Reordering
import Wadl.Proofs.Client.Responses
import Wadl.Proofs.Client.Script
import Wadl.Proofs.Client.Sending
import Wadl.Proofs.Client.Signature
import Wadl.Proofs.Client.Totality
import Wadl.Proofs.Client.Unification
import Wadl.Proofs.Docs.Pages
import Wadl.Proofs.Docs.Paragraphs
import Wadl.Proofs.Docs.Words
import Wadl.Proofs.Document.Children
import Wadl.Proofs.Document.Declarations
import Wadl.Proofs.Document.Documentation
import Wadl.Proofs.Document.Edits
import Wadl.Proofs.Document.Elements
import Wadl.Proofs.Document.Entries
import Wadl.Proofs.Document.Gathering
import Wadl.Proofs.Document.Hrefs
import Wadl.Proofs.Document.Identifiers
import Wadl.Proofs.Document.Marks
import Wadl.Proofs.Document.Nesting
import Wadl.Proofs.Document.Outline
import Wadl.Proofs.Document.Parts
import Wadl.Proofs.Document.Placeholders
import Wadl.Proofs.Document.Reading
import Wadl.Proofs.Document.Recast
import Wadl.Proofs.Document.References
import Wadl.Proofs.Document.Rereading.Methods
import Wadl.Proofs.Document.Rereading.Resources
import Wadl.Proofs.Document.Restyling
import Wadl.Proofs.Document.RoundTrip
import Wadl.Proofs.Document.Sites
import Wadl.Proofs.Document.Sound
import Wadl.Proofs.Document.Sources
import Wadl.Proofs.Document.Strictness
import Wadl.Proofs.Document.Styles
import Wadl.Proofs.Document.Survival
import Wadl.Proofs.Document.Unmarked
import Wadl.Proofs.Document.Uses
import Wadl.Proofs.Document.Written
import Wadl.Proofs.Ensures
import Wadl.Proofs.Loading.Ownership
import Wadl.Proofs.Naming.Session
import Wadl.Proofs.Number.Numeral
import Wadl.Proofs.Resolution.Aliases
import Wadl.Proofs.Resolution.Closure
import Wadl.Proofs.Resolution.Containers
import Wadl.Proofs.Resolution.Failures
import Wadl.Proofs.Resolution.Following
import Wadl.Proofs.Resolution.Libraries
import Wadl.Proofs.Resolution.Locals
import Wadl.Proofs.Resolution.Places
import Wadl.Proofs.Resolution.Termination
import Wadl.Proofs.Resolution.Walk
import Wadl.Proofs.Runs
import Wadl.Proofs.Source.Docstrings
import Wadl.Proofs.Source.Literals
import Wadl.Proofs.Tables
import Wadl.Proofs.Text.Quoted
import Wadl.Proofs.Time.Text
import Wadl.Proofs.Types.Literal
import Wadl.Proofs.Uri.Faithful
import Wadl.Proofs.Uri.Normal
import Wadl.Proofs.Uri.Rejoin
import Wadl.Proofs.Uri.Resolved
import Wadl.Proofs.Wire.Bodies
import Wadl.Proofs.Wire.Headers
import Wadl.Proofs.Wire.Templates
import Wadl.Proofs.Wire.Untyped
import Wadl.Proofs.Wire.Urls
import Wadl.Proofs.Xml.Characters
import Wadl.Proofs.Xml.Marks
import Wadl.Proofs.Xml.Quoting
import Wadl.Proofs.Xml.Tags
import Wadl.Resolution.Basic
import Wadl.Resolution.Container
import Wadl.Resolution.Error
import Wadl.Resolution.Search
import Wadl.Source.Docstring
import Wadl.Source.Expression
import Wadl.Source.Scan
import Wadl.Source.Statement
import Wadl.Source.Token
import Wadl.Text.Base64
import Wadl.Text.Blank
import Wadl.Text.Case
import Wadl.Text.CharClass
import Wadl.Text.Quoted
import Wadl.Text.Sorting
import Wadl.Time.Calendar
import Wadl.Time.Text
import Wadl.Types.Literal
import Wadl.Uri.Host
import Wadl.Uri.Join
import Wadl.Uri.Percent
import Wadl.Uri.Punycode
import Wadl.Wire.Answer
import Wadl.Wire.Body
import Wadl.Wire.Error
import Wadl.Wire.MediaType
import Wadl.Wire.Record
import Wadl.Wire.Url
import Wadl.Wire.Value
import Wadl.Xml.Chars
import Wadl.Xml.Doctype
import Wadl.Xml.Markup
import Wadl.Xml.Reader
import Wadl.Xml.Tree
import Wadl.Xml.Writer
import Wadl.Yaml.Cursor
import Wadl.Yaml.Node
import Wadl.Yaml.Scalar
import Wadl.Yaml.Token
import Wadl.Yaml.Value
