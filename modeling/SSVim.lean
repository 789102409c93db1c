import SSVim.Transition.Machine
import SSVim.Text
import SSVim.Completer.Context
import SSVim.Completer.Offset
import SSVim.SourceKit.Request
import SSVim.Completer.Service
import SSVim.SourceKit.CompletionSession
import SSVim.Sema.Channel
import SSVim.Sema.Protocol
import SSVim.Sema.Steps
import SSVim.Sema.Delivery
import SSVim.Sema.Notifications
import SSVim.Sema.Stranding
import SSVim.Sema.Freshness
import SSVim.Json.Read
import SSVim.Sema.Document
import SSVim.Server.Acceptor
import SSVim.Server.Endpoint
import SSVim.Server.Process
import SSVim.Server.Pairing
import SSVim.Server.FailedWrite
import SSVim.Server.Arming
import SSVim.Server.Rejection
import SSVim.Server.Answering
import SSVim.Sema.Broadcast
import SSVim.Completer.CleanFile
import SSVim.Completer.Cursor
import SSVim.SourceKit.CompletionPoint
import SSVim.Completer.Program
import SSVim.Server.Labelled
import SSVim.Json.Write
import SSVim.Json.RoundTrip
import SSVim.Client.PostBody
import SSVim.Json.Grammar
import SSVim.Json.Unicode
import SSVim.Json.Canonical
import SSVim.Transition.Refinement
import SSVim.Transition.Subscription
import SSVim.Sema.Waiters
import SSVim.Sema.Subscribers
import SSVim.Server.Shared
import SSVim.Server.Delivered
import SSVim.Sema.Progress
import SSVim.Server.Progress
import SSVim.Server.Ending
import SSVim.Json.Getters
import SSVim.Server.Body
import SSVim.Sema.History
import SSVim.Server.Origin
import SSVim.Server.Sockets
import SSVim.SourceKit.Typing
import SSVim.Transition.Memo
import SSVim.Server.Completed
