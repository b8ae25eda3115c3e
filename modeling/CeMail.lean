import CeMail.Lib.Machine
import CeMail.Lib.Table
import CeMail.Lib.Bincode
import CeMail.Lib.Retention
import CeMail.Lib.KeyExchange
import CeMail.Lib.Effect
import CeMail.Lib.Links
import CeMail.Lib.Loop
import CeMail.Lib.Utf8
import CeMail.Lib.Words
import CeMail.Lib.Disk
import CeMail.Model.NodeId
import CeMail.Model.Envelope
import CeMail.Model.Receipt
import CeMail.Model.Limits
import CeMail.Model.Mailbox
import CeMail.Model.StoreFile
import CeMail.Model.Inbox
import CeMail.Model.Service
import CeMail.Model.Proto
import CeMail.Model.SealedBox
import CeMail.Model.Attachment
import CeMail.Model.Client
import CeMail.Model.Server
import CeMail.Model.Subject
import CeMail.Model.Thread
import CeMail.Model.Screening
import CeMail.Model.Command
import CeMail.Model.Panics
import CeMail.Model.Persist
import CeMail.Proof.StoreRun
import CeMail.Proof.Alike
import CeMail.Proof.Independence
import CeMail.Proof.Dedup
import CeMail.Proof.Restart
import CeMail.Proof.Reader
import CeMail.Proof.Inbox
import CeMail.Proof.ServiceRun
import CeMail.Proof.Strangers
import CeMail.Proof.Wire
import CeMail.Proof.StoreFormat
import CeMail.Proof.SealedBox
import CeMail.Proof.Client
import CeMail.Proof.Relay
import CeMail.Proof.Acks
import CeMail.Proof.Paging
import CeMail.Proof.Spelling
import CeMail.Proof.NodeCapacity
import CeMail.Proof.Server
import CeMail.Proof.Crash
import CeMail.Proof.Roots
import CeMail.Proof.Refused
import CeMail.Proof.Thread
import CeMail.Proof.ReceiptBox
import CeMail.Proof.Screening
import CeMail.Proof.Command
import CeMail.Proof.AckedMail
import CeMail.Proof.Replies
import CeMail.Proof.Listing
import CeMail.Proof.Conversations
import CeMail.Proof.Titles
import CeMail.Proof.Subject
import CeMail.Proof.SubjectBytes
import CeMail.Proof.Truncated
import CeMail.Proof.SmallOrder
import CeMail.Proof.Persist
import CeMail.Proof.Writers
import CeMail.Proof.Mailboxes
import CeMail.Proof.Oversized
import CeMail.Model.Network
import CeMail.Model.Shared
import CeMail.Proof.Custody
import CeMail.Proof.Network
import CeMail.Proof.Delivery
import CeMail.Proof.Shared
import CeMail.Model.Node
import CeMail.Proof.Serving
import CeMail.Proof.Node
import CeMail.Proof.Authentic
import CeMail.Proof.Growth
import CeMail.Proof.Confidential
import CeMail.Lib.Track
import CeMail.Model.Online
import CeMail.Proof.Online
