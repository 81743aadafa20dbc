import SchemaScript.Cursor.Request
import SchemaScript.Proofs.Script.Containment
import SchemaScript.Proofs.Script.RoundTrip
import SchemaScript.Proofs.Script.TableRoundTrip
import SchemaScript.Proofs.Script.Tiling
import SchemaScript.Script.Log
import SchemaScript.Statement.Node
import SchemaScript.Proofs.Grammar.Yields
import SchemaScript.Proofs.Script.WellFormed
import SchemaScript.Proofs.Grammar.Alike
import SchemaScript.Proofs.Script.OtherRules
import SchemaScript.Proofs.Grammar.Rebroken
import SchemaScript.Proofs.Script.Rebroken
import SchemaScript.Proofs.Parameters.Decoding
import SchemaScript.Proofs.Script.Logged
import SchemaScript.Proofs.Script.Bracketed
import SchemaScript.Proofs.Script.Separated
import SchemaScript.Proofs.Grammar.Tokens
import SchemaScript.Proofs.Script.WholeWord
import SchemaScript.Proofs.Cursor.Session
import SchemaScript.Proofs.Parameters.ExplicitValue
import SchemaScript.Proofs.Parameters.Separator
import SchemaScript.Proofs.Script.TwoWords
import SchemaScript.Proofs.Text.Layout
import SchemaScript.Proofs.Cursor.Names
import SchemaScript.Proofs.Parameters.Options
import SchemaScript.Proofs.Statement.Data
import SchemaScript.Proofs.Parameters.Pairing
