import LanguageClient.Activation.Rehearsal
import LanguageClient.Json.Member
import LanguageClient.Machine.Workshop
import LanguageClient.Main
import LanguageClient.Proofs.Activation.Endpoints
import LanguageClient.Proofs.Activation.Interruptions
import LanguageClient.Proofs.Activation.Reports
import LanguageClient.Proofs.Frame.EndOfStream
import LanguageClient.Proofs.Server.Handle
import LanguageClient.Proofs.Session.Correlation
import LanguageClient.Proofs.Session.Drain
import LanguageClient.Proofs.Session.Noise
import LanguageClient.Proofs.Session.Sealed
import LanguageClient.Proofs.Session.Fragments
import LanguageClient.Proofs.Session.WireOrder
import LanguageClient.Proofs.Settings.Agreement
import LanguageClient.Proofs.Transport.Attempts
