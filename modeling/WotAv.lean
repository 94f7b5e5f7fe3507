import WotAv.Lib.Transition
import WotAv.Media.IpcLaws
import WotAv.Media.QueueDrain
import WotAv.Media.Descriptors
import WotAv.Native.Metadata
import WotAv.Native.Ipc
import WotAv.Lib.Utf8
import WotAv.Native.Options
import WotAv.Native.Probes
import WotAv.Native.Reassembly
import WotAv.System.Descriptors
import WotAv.Events.Ownership
import WotAv.Events.Notifications
import WotAv.Events.Stopping
import WotAv.Events.Leases
import WotAv.Publication.Foreign
import WotAv.Publication.FilesOwnership
import WotAv.System.Open
import WotAv.System.Backchannel
import WotAv.System.Receipts
import WotAv.Publication.Files
import WotAv.Binding.Exchange
import WotAv.Binding.DigestLaws
import WotAv.Discovery.Verification
import WotAv.Discovery.Inspection
import WotAv.Discovery.Quarantine
import WotAv.Discovery.Durability
import WotAv.Discovery.Departure
import WotAv.Discovery.Attention
import WotAv.Discovery.Addresses
import WotAv.Discovery.BoundedJson
import WotAv.Publication.Saves
import WotAv.Publication.Merging
import WotAv.Publication.Currency
import WotAv.Catalog.Assessments
import WotAv.Catalog.ModelImports
import WotAv.Contract.PortableRegexLaws
import WotAv.Runtime.CloseLaws
import WotAv.Projection.IdentityLaws
import WotAv.Xml.Patterns
import WotAv.Xml.TemporalLaws
import WotAv.Xml.Unique
import WotAv.Media.AccountsLaws
import WotAv.Media.Credits
import WotAv.Media.ExecutorOwnership
import WotAv.Capture.PicturesLaws
import WotAv.Native.JpegLaws
import WotAv.Tools.NativeParametersLaws
import WotAv.Tools.JsonFormatLaws
import WotAv.Capture.SemanticLaws
import WotAv.Catalog.RequirementsLaws
import WotAv.Catalog.Schemas
import WotAv.Discovery.ListingLaws
import WotAv.Native.RtspDigestLaws
import WotAv.Native.Input
import WotAv.Publication.ModelsLaws
import WotAv.System.Data
