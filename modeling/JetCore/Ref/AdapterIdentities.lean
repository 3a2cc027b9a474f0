import JetCore.Ref.BootstrapAuth

/-!
# `adapter_identities.yaml`

Each adapter has an identity, and another with the same permissions for its
tests.
-/

namespace JetCore.AdapterIdentities

def webhookListener (serviceId : String) : ManifestEntry where
  serviceId := serviceId
  publish := ["events.files.FileWriteRequested"]
  subscribe := []

def fileStorage (serviceId : String) : ManifestEntry where
  serviceId := serviceId
  publish := [
    "events.files.FileCreateCompleted", "events.files.FileWriteCompleted",
    "events.files.FileReadCompleted", "events.files.FileListCompleted",
    "events.files.FileDeleteCompleted", "events.files.FileOperationFailed"]
  subscribe := [
    "events.files.FileWriteRequested", "events.files.FileReadRequested",
    "events.files.FileListRequested", "events.files.FileDeleteRequested"]

def httpAdapter (serviceId : String) : ManifestEntry where
  serviceId := serviceId
  publish := ["events.http.RequestCompleted"]
  subscribe := ["events.orders.OrderCreated"]

def restApiService (serviceId : String) : ManifestEntry where
  serviceId := serviceId
  publish := ["events.orders.OrderCreated"]
  subscribe := ["events.orders.OrderPersisted"]

def webhookSender (serviceId : String) : ManifestEntry where
  serviceId := serviceId
  publish := []
  subscribe := ["events.orders.OrderCreated"]

def dbAdapterMysql (serviceId : String) : ManifestEntry where
  serviceId := serviceId
  publish := ["events.db.orders.RowChanged", "events.orders.OrderPersisted"]
  subscribe := ["events.orders.OrderCreated"]

def testObserver : ManifestEntry where
  serviceId := "test-observer-01"
  publish := [
    "events.files.FileReadRequested", "events.files.FileListRequested",
    "events.files.FileDeleteRequested"]
  subscribe := [
    "events.files.FileWriteRequested", "events.files.FileCreateCompleted",
    "events.files.FileWriteCompleted", "events.files.FileReadCompleted",
    "events.files.FileListCompleted", "events.files.FileDeleteCompleted",
    "events.files.FileOperationFailed", "events.http.RequestCompleted",
    "events.orders.OrderCreated", "events.db.orders.RowChanged"]

def adapters : List ManifestEntry := [
  webhookListener "webhook-listener-01", fileStorage "file-storage-01",
  httpAdapter "http-adapter-01", restApiService "rest-api-service-01",
  webhookSender "webhook-sender-01", dbAdapterMysql "db-adapter-mysql-01",
  webhookListener "webhook-listener-01-test",
  fileStorage "file-storage-01-test", httpAdapter "http-adapter-01-test",
  restApiService "rest-api-service-01-test",
  webhookSender "webhook-sender-01-test",
  dbAdapterMysql "db-adapter-mysql-01-test", testObserver]

end JetCore.AdapterIdentities
