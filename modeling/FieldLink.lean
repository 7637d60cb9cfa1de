import FieldLink.Admission
import FieldLink.Aes
import FieldLink.Arguments
import FieldLink.Authenticator
import FieldLink.Base32
import FieldLink.Base64
import FieldLink.BinaryFloat
import FieldLink.Blocks
import FieldLink.Board
import FieldLink.Cbor
import FieldLink.CborDocument
import FieldLink.CborReader
import FieldLink.Checksum
import FieldLink.Clock
import FieldLink.Command
import FieldLink.Decimal
import FieldLink.Description
import FieldLink.Dispatcher
import FieldLink.Document
import FieldLink.Envelope
import FieldLink.FileTree
import FieldLink.Frame
import FieldLink.Gcm
import FieldLink.Handshake
import FieldLink.Hexadecimal
import FieldLink.Hmac
import FieldLink.IndentedJson
import FieldLink.Json
import FieldLink.JsonDocument
import FieldLink.JsonReader
import FieldLink.Main
import FieldLink.MessageKind
import FieldLink.NodeConfig
import FieldLink.NodeStart
import FieldLink.NonceCache
import FieldLink.NonceHistory
import FieldLink.NumberText
import FieldLink.Octets
import FieldLink.OneTimeCode
import FieldLink.Payload
import FieldLink.PrintedCharacters
import FieldLink.ProtocolError
import FieldLink.QuotedText
import FieldLink.RandomSource
import FieldLink.SecretStore
import FieldLink.SecurityContext
import FieldLink.SecurityError
import FieldLink.Session
import FieldLink.SessionError
import FieldLink.Setting
import FieldLink.Sha1
import FieldLink.Sha256
import FieldLink.Shape
import FieldLink.Telemetry
import FieldLink.Toml
import FieldLink.TomlReader
import FieldLink.TomlToken
import FieldLink.Tool
import FieldLink.ToolRequest
import FieldLink.Utf8
import FieldLink.Whitespace
import FieldLink.WireDocument
import FieldLink.Proofs.FrameLayout
import FieldLink.Proofs.FrameReceiver
import FieldLink.Proofs.OctetNumbers
import FieldLink.Proofs.FrameInverse
import FieldLink.Proofs.CommandReplay
import FieldLink.Proofs.Utf8Text
import FieldLink.Proofs.FloatRounding
import FieldLink.Proofs.DecimalRounding
import FieldLink.Proofs.DecimalDigits
import FieldLink.Proofs.JsonNumberInverse
import FieldLink.Proofs.JsonStringInverse
import FieldLink.Proofs.DocumentShape
import FieldLink.Proofs.JsonInverse
import FieldLink.Proofs.CborInverse
import FieldLink.Proofs.CborDocumentInverse
import FieldLink.Proofs.EnvelopeInverse
import FieldLink.Proofs.AuthenticatorRuns
import FieldLink.Proofs.JsonUniqueness
import FieldLink.Proofs.JsonBrackets
import FieldLink.Proofs.SignedContent
import FieldLink.Proofs.EnvelopeFidelity
import FieldLink.Proofs.PayloadShape
import FieldLink.Proofs.SecureChannel
import FieldLink.Proofs.RoundingThresholds
import FieldLink.Proofs.NearMisses
import FieldLink.Proofs.DoubleRounding
import FieldLink.Proofs.FloatWidths
import FieldLink.Proofs.CborReproduction
import FieldLink.Proofs.CborReading
import FieldLink.Proofs.FormatSniffing
import FieldLink.Proofs.CborNormalForm
import FieldLink.Proofs.SignedCommands
import FieldLink.Proofs.CommandInverse
import FieldLink.Proofs.BoardEffects
import FieldLink.Proofs.CommandDelivery
import FieldLink.Proofs.Outcomes
import FieldLink.Proofs.CodeWindow
import FieldLink.Proofs.HandshakeAdmission
import FieldLink.Proofs.HandshakeReplay
import FieldLink.Proofs.ConnectionKeys
import FieldLink.Proofs.ClientHandshake
import FieldLink.Proofs.SendAttempts
import FieldLink.Proofs.SenderNumbering
import FieldLink.Proofs.RecentNonces
import FieldLink.Proofs.CommandDecision
import FieldLink.Proofs.Receiving
import FieldLink.Proofs.DispatcherRuns
import FieldLink.Proofs.NodeStartup
import FieldLink.Proofs.AuthenticationTag
import FieldLink.Proofs.BlockField
import FieldLink.Proofs.BlockCipher
import FieldLink.Proofs.FrameTampering
import FieldLink.Proofs.PayloadDelivery
import FieldLink.Proofs.TelemetryInverse
import FieldLink.Proofs.TelemetryRelay
import FieldLink.Proofs.BitStrings
import FieldLink.Proofs.LetterCase
import FieldLink.Proofs.Base32Inverse
import FieldLink.Proofs.CommandExecution
import FieldLink.Proofs.EnvelopeGrammar
import FieldLink.Proofs.ChecksumErrors
import FieldLink.Proofs.ContextUse
import FieldLink.Proofs.FrameBuffers
import FieldLink.Proofs.HandshakeRefusal
import FieldLink.Proofs.NumberSpelling
import FieldLink.Proofs.ArgumentSyntax
import FieldLink.Proofs.ToolCommands
import FieldLink.Proofs.CommandOptions
import FieldLink.Proofs.CommandArguments
import FieldLink.Proofs.JsonLayout
import FieldLink.Proofs.PreferredFormat
import FieldLink.Proofs.ToolReports
import FieldLink.Proofs.CodeDigits
