import DebugMetadata.Session
import DebugMetadata.Proofs.Bytes.Growth
import DebugMetadata.Proofs.Image.Question
import DebugMetadata.Proofs.Image.Growth
import DebugMetadata.Proofs.Bytes.Held
import DebugMetadata.Proofs.Bytes.Mask
import DebugMetadata.Proofs.Bytes.Compressed
import DebugMetadata.Proofs.Image.Written
import DebugMetadata.Proofs.Image.Headers
import DebugMetadata.Proofs.Table.Written
import DebugMetadata.Proofs.Image.Tables
import DebugMetadata.Proofs.Image.Container
import DebugMetadata.Proofs.Draft.Basic
import DebugMetadata.Proofs.Image.Heap
import DebugMetadata.Proofs.Draft.Opening
import DebugMetadata.Proofs.Draft.Variables
import DebugMetadata.Proofs.Draft.Records
import DebugMetadata.Proofs.Failure
import DebugMetadata.Proofs.Result
import DebugMetadata.Proofs.Table.Listed
import DebugMetadata.Proofs.Image.Variables
import DebugMetadata.Proofs.Session.Step
import DebugMetadata.Proofs.Session.Maps
import DebugMetadata.Proofs.Session.Variables
import DebugMetadata.Proofs.Image.Parents
import DebugMetadata.Proofs.Image.Records
import DebugMetadata.Proofs.Image.Isolation
import DebugMetadata.Proofs.Session.Positions
import DebugMetadata.Proofs.Uri.Percent
import DebugMetadata.Proofs.SourceLink.Relative
import DebugMetadata.Proofs.Json.Depth
import DebugMetadata.Proofs.SourceLink.Failure
import DebugMetadata.Proofs.Json.Written
import DebugMetadata.Proofs.SourceLink.Written
import DebugMetadata.Proofs.Text.Quoted
import DebugMetadata.Proofs.SourceLink.Members
import DebugMetadata.Proofs.SourceLink.Resolving
import DebugMetadata.Proofs.Uri.Authority
import DebugMetadata.Proofs.Json.Taken
import DebugMetadata.Proofs.FilePath
import DebugMetadata.Proofs.SourceLink.FirstMatch
import DebugMetadata.Proofs.Uri.Site
import DebugMetadata.Proofs.SourceLink.Location
import DebugMetadata.Proofs.SourceLink.ExactPattern
import DebugMetadata.Proofs.Text.Strict
import DebugMetadata.Proofs.Record.TupleNames
import DebugMetadata.Proofs.Record.HoistedScope
import DebugMetadata.Proofs.Image.Opened
import DebugMetadata.Proofs.Image.Layout
import DebugMetadata.Proofs.Image.Rows
import DebugMetadata.Proofs.Image.Directory
import DebugMetadata.Proofs.Image.LookUp
import DebugMetadata.Proofs.Session.Tokens
import DebugMetadata.Proofs.Session.Openings
import DebugMetadata.Proofs.Bytes.Scan
