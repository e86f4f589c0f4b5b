import Understudy.Expectation.Sheet
import Understudy.Host.Link
import Understudy.Host.Wire
import Understudy.Proofs.AttributeSet.Flattening
import Understudy.Proofs.AttributeSet.RoundTrip
import Understudy.Proofs.Collection.Atomicity
import Understudy.Proofs.Collection.Composition
import Understudy.Proofs.Collection.Conservation
import Understudy.Proofs.Collection.Distinction
import Understudy.Proofs.Collection.Narrowing
import Understudy.Proofs.Collection.Overwriting
import Understudy.Proofs.Collection.Readback
import Understudy.Proofs.Collection.Removal
import Understudy.Proofs.Collection.Reparsing
import Understudy.Proofs.Collection.Replacement
import Understudy.Proofs.Collection.Selection
import Understudy.Proofs.Collection.Visibility
import Understudy.Proofs.Expectation.Clauses
import Understudy.Proofs.Expectation.Filing
import Understudy.Proofs.Json.Concatenation
import Understudy.Proofs.Json.Grammar
import Understudy.Proofs.Json.Heredity
import Understudy.Proofs.Registry.Reordering
import Understudy.Proofs.Response.Chunks
import Understudy.Proofs.Script.Cues
import Understudy.Proofs.Session.Delivery
import Understudy.Proofs.Session.Draining
import Understudy.Proofs.Session.Farewell
import Understudy.Proofs.Session.Quiescence
import Understudy.Proofs.Session.Reasons
import Understudy.Proofs.Session.Replies
import Understudy.Proofs.Session.SelfClosing
import Understudy.Proofs.Session.Shutdown
import Understudy.Proofs.Stage.Independence
import Understudy.Proofs.Stage.Registration
import Understudy.Proofs.Stage.Responses
