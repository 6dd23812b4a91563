import QfcServerWallet.Policy.Qvm
import QfcServerWallet.Policy.RateLimitSound
import QfcServerWallet.Policy.StaticPolicy
import QfcServerWallet.Policy.Restriction
import QfcServerWallet.Sss.Accepted
import QfcServerWallet.Enclave.DerivationSound
import QfcServerWallet.Enclave.UserData
import QfcServerWallet.Enclave.Nitro
import QfcServerWallet.Enclave.Freshness
import QfcServerWallet.Audit.ChainAnchor
import QfcServerWallet.Audit.AnchorRace
import QfcServerWallet.Audit.FileOpening
import QfcServerWallet.Audit.Reading
import QfcServerWallet.Quorum.EnclaveForm
import QfcServerWallet.Quorum.TsHex
import QfcServerWallet.Service.ApproverClient
import QfcServerWallet.Quorum.SetPersistence
import QfcServerWallet.Service.QuorumComplete
import QfcServerWallet.Service.Visibility
import QfcServerWallet.Service.Revocation
import QfcServerWallet.Service.AuditClosing
import QfcServerWallet.Service.KeySound
import QfcServerWallet.Stores.Atomicity
import QfcServerWallet.Stores.Placement
