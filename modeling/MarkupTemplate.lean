import MarkupTemplate.ByteCursor
import MarkupTemplate.Cache
import MarkupTemplate.Proofs.Anchor.Law
import MarkupTemplate.Proofs.Anchor.Refusal
import MarkupTemplate.Proofs.Cache.WarmUp
import MarkupTemplate.Proofs.Document.Resolution
import MarkupTemplate.Proofs.Document.Visiting
import MarkupTemplate.Proofs.Instance.Coexistence
import MarkupTemplate.Proofs.Instance.Incremental
import MarkupTemplate.Proofs.Instance.Independence
import MarkupTemplate.Proofs.Instance.Nesting
import MarkupTemplate.Proofs.Instance.Refusal
import MarkupTemplate.Proofs.Markup.RawContent
import MarkupTemplate.Proofs.Markup.RoundTrip
import MarkupTemplate.Proofs.Markup.StartTags
import MarkupTemplate.Proofs.Markup.Strictness
import MarkupTemplate.Proofs.Template.Collisions
import MarkupTemplate.Proofs.Template.OnePass
import MarkupTemplate.Proofs.Template.Rereading
