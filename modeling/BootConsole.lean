import BootConsole.Main
import BootConsole.Proofs.Conversation.Course
import BootConsole.Proofs.Conversation.Exchange
import BootConsole.Proofs.Conversation.Waiting
import BootConsole.Proofs.Conversation.Steps
import BootConsole.Proofs.Output.History
import BootConsole.Proofs.Conversation.Flow
import BootConsole.Proofs.Conversation.Stages
import BootConsole.Proofs.Conversation.Closing
import BootConsole.Proofs.Conversation.Script
import BootConsole.Proofs.Pattern.LineWord
import BootConsole.Proofs.Text.AsciiWords
import BootConsole.Proofs.Output.Markers
import BootConsole.Proofs.Output.Prompt
import BootConsole.Proofs.Telnet.Segments
import BootConsole.Proofs.Telnet.Grammar
import BootConsole.Proofs.Telnet.RoundTrip
import BootConsole.Proofs.Telnet.Refusals
import BootConsole.Proofs.Output.Operations
import BootConsole.Proofs.Text.Beginnings
import BootConsole.Proofs.Terminal.Plain
import BootConsole.Proofs.Terminal.Resumption
import BootConsole.Proofs.Terminal.Cuts
import BootConsole.Proofs.Conversation.Throughout
import BootConsole.Proofs.Conversation.SingleSteps
import BootConsole.Proofs.Conversation.Utterance
import BootConsole.Proofs.Conversation.Usage
import BootConsole.Proofs.Conversation.OverTelnet
import BootConsole.Proofs.Conversation.HangUps
import BootConsole.Proofs.Conversation.Noticing
import BootConsole.Proofs.Output.Supply
import BootConsole.Proofs.Output.Echo
import BootConsole.Proofs.Conversation.Deadline
import BootConsole.Proofs.Conversation.Supplied
import BootConsole.Proofs.Conversation.Answers
import BootConsole.Proofs.Stream.Attempts
import BootConsole.Proofs.Stream.Reads
import BootConsole.Proofs.Conversation.LifeCycle
import BootConsole.Proofs.Conversation.Responses
import BootConsole.Proofs.Provision.WholeRun
import BootConsole.Proofs.Provision.OneLine
import BootConsole.Proofs.Conversation.Chunks
import BootConsole.Proofs.Conversation.Quiet
import BootConsole.Proofs.Text.Tails
import BootConsole.Proofs.Output.Length
import BootConsole.Proofs.Output.PromptInTime
import BootConsole.Proofs.Terminal.NormalForm
import BootConsole.Proofs.Output.FirstSeen
import BootConsole.Proofs.Terminal.Grammar
import BootConsole.Proofs.Conversation.Heedless
import BootConsole.Proofs.Output.Reporting
import BootConsole.Proofs.Output.Protection
import BootConsole.Proofs.Telnet.WireForm
import BootConsole.Proofs.Telnet.Negotiation
import BootConsole.Proofs.Output.MarkerSearch
