import ApiStarter.AccessControl
import ApiStarter.Admins
import ApiStarter.ApiKeyLifetimes
import ApiStarter.ApiKeyLimit
import ApiStarter.AuditTrail
import ApiStarter.AuthorizationCodes
import ApiStarter.AvatarFiles
import ApiStarter.Browsers
import ApiStarter.Chrono.Times
import ApiStarter.CleanupChain
import ApiStarter.ClientIp
import ApiStarter.DeletedAccounts
import ApiStarter.DeletedFiles
import ApiStarter.Downloads
import ApiStarter.EarnedTokens
import ApiStarter.EmailAddresses
import ApiStarter.ExpiryTimes
import ApiStarter.FailedCallbacks
import ApiStarter.ForeignKeys
import ApiStarter.HalfFinished
import ApiStarter.HashPermits
import ApiStarter.Identities
import ApiStarter.Interleave.Failures
import ApiStarter.JobQueue
import ApiStarter.JobRuns
import ApiStarter.Links
import ApiStarter.ListingPages
import ApiStarter.Lockout
import ApiStarter.LoginAttempts
import ApiStarter.MediaPrivacy
import ApiStarter.NewestLink
import ApiStarter.OAuthRedirects
import ApiStarter.ObjectStorage
import ApiStarter.PasskeyCounters
import ApiStarter.PasskeyLimit
import ApiStarter.PasskeyRemovals
import ApiStarter.PasswordChanges
import ApiStarter.ProviderWords
import ApiStarter.QrRejection
import ApiStarter.RateLimiter
import ApiStarter.RecoveryBatches
import ApiStarter.RecoveryCodes
import ApiStarter.RepeatedMail
import ApiStarter.ResetFailures
import ApiStarter.ResetMails
import ApiStarter.SecretLifetimes
import ApiStarter.Secrets
import ApiStarter.SecretsRerun
import ApiStarter.ServerErrors
import ApiStarter.ServerSecrets
import ApiStarter.Services.ProviderClient
import ApiStarter.SessionLifetimes
import ApiStarter.SessionTokens
import ApiStarter.SignInMethods
import ApiStarter.StorageRoot
import ApiStarter.StoredMedia
import ApiStarter.StoredPasswords
import ApiStarter.TrackedClients
import ApiStarter.TwoFactor
import ApiStarter.UniqueKeys
import ApiStarter.UnknownAddresses
import ApiStarter.UnseenCleanup
import ApiStarter.UserSearch
import ApiStarter.VerifiedEmails
import ApiStarter.Web.FormUrlencoded
import ApiStarter.Web.Url
import ApiStarter.Web.UrlText
import ApiStarter.Web.WellFormedUrl
