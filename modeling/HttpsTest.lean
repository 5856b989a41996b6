import HttpsTest.Db.Proof.Connections
import HttpsTest.Db.Proof.ConnectionMap
import HttpsTest.Db.Proof.Increments
import HttpsTest.Db.Proof.Opening
import HttpsTest.Http.Proof.RoundTrip
import HttpsTest.Http.Proof.ContentType
import HttpsTest.Http.Proof.Decoding
import HttpsTest.Http.Proof.Positions
import HttpsTest.Http.Proof.CharacterClasses
import HttpsTest.Config.Proof.Nesting
import HttpsTest.Users.Proof.Documents
import HttpsTest.Users.Proof.Arrays
import HttpsTest.Users.Proof.Permuted
import HttpsTest.Server.Proof.IoThreads
import HttpsTest.Server.Proof.Interleaving
import HttpsTest.Server.Proof.AsyncOperations
import HttpsTest.Server.Proof.Starting
import HttpsTest.Server.Proof.Exchanges
import HttpsTest.Server.Proof.Reading
import HttpsTest.Server.Proof.Bookkeeping
import HttpsTest.Server.Proof.FieldNames
import HttpsTest.Server.Proof.ContentLength
import HttpsTest.Server.Proof.PoolRuns
import HttpsTest.Server.Proof.Notifications
import HttpsTest.Server.Proof.Clients
import HttpsTest.Server.Proof.Ledger
import HttpsTest.Db.Proof.Durable
import HttpsTest.Server.Proof.SyncClients
import HttpsTest.Server.Proof.Queries
import HttpsTest.Server.Proof.SyncSettings
import HttpsTest.Server.Proof.Service
import HttpsTest.Users.Proof.Concurrency
import HttpsTest.Server.Proof.ConcurrentClients
import HttpsTest.Server.Proof.OneByOne
import HttpsTest.Users.Proof.Evaluation
